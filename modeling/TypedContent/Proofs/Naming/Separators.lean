import Mathlib.Data.List.Basic
import TypedContent.Naming.Uid

/-!
# Names without separators

Names are put together from words, and words are what stands between
separators. The letters at their heads change case on the way, and a change
of case could in principle bring a separator back. It does not: every image
of a case mapping is a letter `A` or a character behind it
(`eq_of_mem_upper`, `eq_of_mem_lower`), while the point and the space come
before. So a name in one of the three spellings has no point and no space
(`notMem_pascalCase`, `notMem_camelCase`, `notMem_namespaceName`), which is
why a qualified name can be taken apart at its point.
-/

namespace TypedContent

open List

variable {cs : List Char}

namespace Text

variable {c : Char}

/-! ## Case mappings -/

/-- A character that no case mapping gives: one before the letters, and not
the replacement for a code that is no character. -/
def isLow (c : Char) : Bool :=
  0 < c.toNat && c.toNat < 0x41

theorem ofNat_ne_of_isLow {d : Char} (hd : isLow d = true) {n : Nat} (hn : 0x41 ≤ n) :
    Char.ofNat n ≠ d := by
  rintro rfl
  have hcode : (Char.ofNat n).toNat = n ∨ (Char.ofNat n).toNat = 0 := by
    by_cases hvalid : n.isValidChar
    · rw [Char.ofNat, dif_pos hvalid]
      exact .inl rfl
    · rw [Char.ofNat, dif_neg hvalid]
      exact .inr rfl
  simp only [isLow, Bool.and_eq_true, decide_eq_true_eq] at hd
  omega

theorem le_of_image? {run : CaseRun} {n image : Nat} (h : run.image? n = some image) :
    run.target ≤ image := by
  unfold CaseRun.image? at h
  split at h
  · cases h
    omega
  · cases h

theorem eq_of_mem_mapCase {runs : List CaseRun} {sequences : List (Nat × List Nat)}
    (hruns : ∀ run ∈ runs, 0x41 ≤ run.target)
    (hsequences : ∀ entry ∈ sequences, ∀ n ∈ entry.2, 0x41 ≤ n) {d : Char}
    (hd : isLow d = true) (h : d ∈ mapCase runs sequences c) :
    d = c := by
  unfold mapCase at h
  split at h
  · rename_i images hlookup
    obtain ⟨n, hn, rfl⟩ := mem_map.1 h
    obtain ⟨before, after, hsplit, -⟩ := lookup_eq_some_iff.1 hlookup
    have hentry : (c.toNat, images) ∈ sequences :=
      hsplit ▸ mem_append_right _ mem_cons_self
    exact absurd rfl (ofNat_ne_of_isLow hd (hsequences _ hentry n hn))
  · split at h
    · rename_i image hfound
      obtain ⟨run, hrun, himage⟩ := exists_of_findSome?_eq_some hfound
      have hle : 0x41 ≤ image := Nat.le_trans (hruns run hrun) (le_of_image? himage)
      exact absurd (mem_singleton.1 h).symm (ofNat_ne_of_isLow hd hle)
    · exact mem_singleton.1 h

/-- Below the end of ASCII there are few enough characters to look at them
all. -/
theorem of_ascii {P : Char → Prop} (hall : ∀ n < 128, P (Char.ofNat n))
    (h : c.toNat < 128) :
    P c := by
  have hc := hall c.toNat h
  rwa [Char.ofNat_toNat] at hc

theorem ascii_case (h : c.toNat < 128) :
    (isLow c.toUpper = true → c.toUpper = c) ∧ (isLow c.toLower = true → c.toLower = c) :=
  of_ascii (P := fun c => (isLow c.toUpper = true → c.toUpper = c)
    ∧ (isLow c.toLower = true → c.toLower = c))
    (by decide +kernel) h

/-- The ASCII mappings leave every character behind ASCII alone. -/
theorem toLower_of_not_ascii (h : ¬ c.toNat < 128) : c.toLower = c := by
  refine dif_neg ?_
  rintro ⟨-, hz⟩
  have : c.toNat ≤ 90 := hz
  omega

theorem toUpper_of_not_ascii (h : ¬ c.toNat < 128) : c.toUpper = c := by
  refine dif_neg ?_
  rintro ⟨-, hz⟩
  have : c.toNat ≤ 122 := hz
  omega

theorem eq_of_isLow_toLower (h : isLow c.toLower = true) : c.toLower = c := by
  by_cases hascii : c.toNat < 128
  · exact (ascii_case hascii).2 h
  · exact toLower_of_not_ascii hascii

theorem eq_of_isLow_toUpper (h : isLow c.toUpper = true) : c.toUpper = c := by
  by_cases hascii : c.toNat < 128
  · exact (ascii_case hascii).1 h
  · exact toUpper_of_not_ascii hascii

theorem eq_of_mem_upper {d : Char} (hd : isLow d = true) (h : d ∈ upper c) : d = c := by
  unfold upper at h
  split at h
  · obtain rfl := mem_singleton.1 h
    exact eq_of_isLow_toUpper hd
  · exact eq_of_mem_mapCase (by decide +kernel) (by decide +kernel) hd h

theorem eq_of_mem_lower {d : Char} (hd : isLow d = true) (h : d ∈ lower c) : d = c := by
  unfold lower at h
  split at h
  · obtain rfl := mem_singleton.1 h
    exact eq_of_isLow_toLower hd
  · exact eq_of_mem_mapCase (by decide +kernel) (by decide +kernel) hd h

theorem notMem_of_mem_pieces {p : Char → Bool} {piece : List Char}
    (h : piece ∈ pieces p cs) {d : Char} (hd : p d = true) :
    d ∉ piece := by
  have hsplit : ∀ cs : List Char, ∀ piece ∈ cs.splitOnP p, d ∉ piece := by
    intro cs
    induction cs with
    | nil => simp [splitOnP_nil]
    | cons c cs ih =>
      rw [splitOnP_cons_eq_if_modifyHead]
      split
      · rename_i hc
        intro piece hpiece
        rcases mem_cons.1 hpiece with rfl | hpiece
        · exact not_mem_nil
        · exact ih piece hpiece
      · rename_i hc
        cases hrest : cs.splitOnP p with
        | nil => simp
        | cons first rest =>
          rw [hrest] at ih
          intro piece hpiece
          rcases mem_cons.1 hpiece with rfl | hpiece
          · have hne : d ≠ c := by
              rintro rfl
              exact hc hd
            exact not_mem_cons_of_ne_of_not_mem hne (ih first mem_cons_self)
          · exact ih piece (mem_cons_of_mem _ hpiece)
  exact hsplit cs piece (mem_filter.1 h).1

end Text

namespace Naming

open Text (isLow)

/-! ## Spellings -/

section

variable {d : Char} (hlow : isLow d = true)

include hlow

theorem notMem_capitalize (h : d ∉ cs) : d ∉ capitalize cs := by
  cases cs with
  | nil => exact h
  | cons c cs =>
    intro hmem
    rcases mem_append.1 hmem with hmem | hmem
    · exact h (Text.eq_of_mem_upper hlow hmem ▸ mem_cons_self)
    · exact h (mem_cons_of_mem c hmem)

theorem notMem_uncapitalize (h : d ∉ cs) : d ∉ uncapitalize cs := by
  cases cs with
  | nil => exact h
  | cons c cs =>
    intro hmem
    rcases mem_append.1 hmem with hmem | hmem
    · exact h (Text.eq_of_mem_lower hlow hmem ▸ mem_cons_self)
    · exact h (mem_cons_of_mem c hmem)

variable (hsep : isSeparator d = true)

include hsep

theorem notMem_pascalCase (cs : List Char) : d ∉ pascalCase cs := by
  intro hmem
  obtain ⟨word, hword, hd⟩ := mem_flatten.1 hmem
  obtain ⟨piece, hpiece, rfl⟩ := mem_map.1 hword
  exact notMem_capitalize hlow (Text.notMem_of_mem_pieces hpiece hsep) hd

theorem notMem_camelCase (cs : List Char) : d ∉ camelCase cs :=
  notMem_uncapitalize hlow (notMem_pascalCase hlow hsep cs)

/-- Words hold lower case letters of characters that separate nothing. -/
theorem notMem_of_mem_wordsFrom {before : Option Char} {word : List Char}
    (h : word ∈ wordsFrom before cs) :
    d ∉ word := by
  have hcons : ∀ c rest, d ≠ c → (∀ word ∈ rest, d ∉ word) →
      ∀ word ∈ consWord c rest, d ∉ word := by
    intro c rest hne hrest word hword
    cases rest with
    | nil =>
      obtain rfl := mem_singleton.1 hword
      simpa using hne
    | cons first rest =>
      rcases mem_cons.1 hword with rfl | hword
      · exact not_mem_cons_of_ne_of_not_mem hne (hrest first mem_cons_self)
      · exact hrest word (mem_cons_of_mem _ hword)
  induction cs generalizing before word with
  | nil =>
    obtain rfl := mem_singleton.1 h
    exact not_mem_nil
  | cons c cs ih =>
    rw [wordsFrom] at h
    split at h
    · rcases mem_cons.1 h with rfl | h
      · exact not_mem_nil
      · exact ih h
    · rename_i hc
      have hne : d ≠ c.toLower := by
        rintro rfl
        exact hc (Text.eq_of_isLow_toLower hlow ▸ hsep)
      have hrest := hcons c.toLower (wordsFrom (some c) cs) hne fun _ hword => ih hword
      simp only at h
      split at h
      · rcases mem_cons.1 h with rfl | h
        · exact not_mem_nil
        · exact hrest word h
      · exact hrest word h

theorem notMem_namespaceName (cs : List Char) : d ∉ namespaceName cs := by
  intro hmem
  obtain ⟨spelled, hspelled, hd⟩ := mem_flatten.1 hmem
  obtain ⟨word, hword, rfl⟩ := mem_map.1 hspelled
  have hnot : d ∉ word := notMem_of_mem_wordsFrom hlow hsep (mem_filter.1 hword).1
  unfold namespaceWord at hd
  split at hd
  · obtain ⟨c, hc, rfl⟩ := mem_map.1 hd
    rw [Text.eq_of_isLow_toUpper hlow] at hnot
    exact hnot hc
  · exact notMem_capitalize hlow hnot hd

end

end Naming

end TypedContent

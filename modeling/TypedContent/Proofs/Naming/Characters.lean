import TypedContent.Proofs.Naming.Separators

/-!
# Characters of spelled names

Spelling a name drops its separators and changes letter case, and that is
all: the words of a name, put together, are its characters without the
separators (`flatten_pieces`, `flatten_words`). So a low character such as a
digit or a line feed is in a spelled name exactly if it is in the name
itself (`mem_pascalCase_iff`). Within ASCII the three spellings of a name
differ in letter case only, from each other and from its bare characters
(`fold_pascalCase`, `fold_camelCase`, `fold_namespaceName`).
-/

namespace TypedContent

open List

namespace Text

/-- Cutting a text in pieces loses the characters between them only. -/
theorem flatten_pieces (p : Char → Bool) (cs : List Char) :
    (pieces p cs).flatten = cs.filter (!p ·) := by
  have hsplit : (cs.splitOnP p).flatten = cs.filter (!p ·) := by
    induction cs with
    | nil => simp [splitOnP_nil]
    | cons c cs ih =>
      rw [splitOnP_cons_eq_if_modifyHead]
      split
      · rename_i hc
        rw [flatten_cons, nil_append, ih, filter_cons_of_neg (by simp [hc])]
      · rename_i hc
        rw [filter_cons_of_pos (by simpa using hc), ← ih]
        obtain ⟨first, rest, hrest⟩ := exists_cons_of_ne_nil (splitOnP_ne_nil p cs)
        rw [hrest]
        rfl
  rw [pieces, flatten_filter_ne_nil, hsplit]

/-- What a change of letter case does to a character of ASCII. -/
theorem ascii_letter {c : Char} (h : c.toNat < 128) :
    c.toLower.toNat < 128 ∧ c.toLower.toLower = c.toLower ∧ c.toUpper.toLower = c.toLower
      ∧ (isLow c = true → c.toUpper = c)
        ∧ Naming.isSeparator c.toLower = Naming.isSeparator c :=
  of_ascii (P := fun c => c.toLower.toNat < 128 ∧ c.toLower.toLower = c.toLower
    ∧ c.toUpper.toLower = c.toLower
      ∧ (isLow c = true → c.toUpper = c)
        ∧ Naming.isSeparator c.toLower = Naming.isSeparator c)
    (by decide +kernel) h

theorem mem_upper_self {d : Char} (hlow : isLow d = true) : d ∈ upper d := by
  have hascii : d.toNat < 128 := by
    simp only [isLow, Bool.and_eq_true, decide_eq_true_eq] at hlow
    omega
  obtain ⟨-, -, -, hupper, -⟩ := ascii_letter hascii
  rw [upper, if_pos hascii, hupper hlow]
  exact mem_singleton_self d

/-! ## Texts in ASCII -/

def IsAscii (cs : List Char) : Prop :=
  ∀ c ∈ cs, c.toNat < 128

instance (cs : List Char) : Decidable (IsAscii cs) :=
  List.decidableBAll _ cs

/-- A text without its differences of ASCII letter case. -/
def fold (cs : List Char) : List Char :=
  cs.map Char.toLower

theorem fold_append (xs ys : List Char) : fold (xs ++ ys) = fold xs ++ fold ys :=
  map_append

theorem fold_flatten (pieces : List (List Char)) :
    fold pieces.flatten = (pieces.map fold).flatten :=
  map_flatten

theorem fold_eq_nil_iff {cs : List Char} : fold cs = [] ↔ cs = [] :=
  map_eq_nil_iff

theorem toLower_toLower (c : Char) : c.toLower.toLower = c.toLower := by
  by_cases h : c.toNat < 128
  · exact (ascii_letter h).2.1
  · rw [toLower_of_not_ascii h, toLower_of_not_ascii h]

theorem isUpper_toLower (c : Char) : c.toLower.isUpper = false := by
  by_cases h : c.toNat < 128
  · exact of_ascii (P := fun c => c.toLower.isUpper = false) (by decide +kernel) h
  · rw [toLower_of_not_ascii h]
    refine decide_eq_false ?_
    rintro ⟨-, hz⟩
    have : c.toNat ≤ 90 := hz
    omega

theorem fold_fold (cs : List Char) : fold (fold cs) = fold cs := by
  rw [fold, fold, map_map]
  exact map_congr_left fun c _ => toLower_toLower c

theorem isAscii_fold_iff {cs : List Char} : IsAscii (fold cs) ↔ IsAscii cs := by
  have hchar : ∀ c : Char, c.toLower.toNat < 128 ↔ c.toNat < 128 := by
    intro c
    by_cases h : c.toNat < 128
    · exact iff_of_true (ascii_letter h).1 h
    · rw [toLower_of_not_ascii h]
  rw [IsAscii, IsAscii, fold, forall_mem_map]
  exact forall₂_congr fun c _ => hchar c

/-- A text is in ASCII if it is so apart from letter case. -/
theorem IsAscii.of_fold_eq {cs ds : List Char} (h : IsAscii cs)
    (heq : fold ds = fold cs) :
    IsAscii ds := by
  rwa [← isAscii_fold_iff, heq, isAscii_fold_iff]

theorem IsAscii.of_subset {cs ds : List Char} (h : IsAscii cs) (hsubset : ds ⊆ cs) :
    IsAscii ds :=
  fun d hd => h d (hsubset hd)

theorem IsAscii.append {cs ds : List Char} (h : IsAscii cs) (h' : IsAscii ds) :
    IsAscii (cs ++ ds) :=
  fun c hc => (mem_append.1 hc).elim (h c) (h' c)

theorem IsAscii.of_mem_pieces {p : Char → Bool} {cs piece : List Char}
    (h : IsAscii cs) (hpiece : piece ∈ pieces p cs) :
    IsAscii piece := by
  intro c hc
  have hmem : c ∈ (pieces p cs).flatten := mem_flatten.2 ⟨piece, hpiece, hc⟩
  rw [flatten_pieces] at hmem
  exact h c (mem_filter.1 hmem).1

end Text

namespace Naming

open Text (isLow pieces fold IsAscii)

/-! ## Low characters -/

theorem mem_capitalize_iff {d : Char} (hlow : isLow d = true) {cs : List Char} :
    d ∈ capitalize cs ↔ d ∈ cs := by
  refine ⟨fun hmem => ?_, fun hmem => ?_⟩
  · by_contra hnot
    exact notMem_capitalize hlow hnot hmem
  · cases cs with
    | nil => exact hmem
    | cons c cs =>
      rcases mem_cons.1 hmem with rfl | hmem
      · exact mem_append_left _ (Text.mem_upper_self hlow)
      · exact mem_append_right _ hmem

theorem mem_pascalCase_iff {d : Char} (hlow : isLow d = true)
    (hsep : isSeparator d = false) {cs : List Char} :
    d ∈ pascalCase cs ↔ d ∈ cs := by
  have hcapital : d ∈ pascalCase cs ↔ d ∈ (pieces isSeparator cs).flatten := by
    rw [pascalCase, ← flatMap_def, mem_flatMap, mem_flatten]
    exact exists_congr fun piece => and_congr_right fun _ => mem_capitalize_iff hlow
  rw [hcapital, Text.flatten_pieces, mem_filter, hsep]
  simp

/-! ## Spellings in ASCII -/

/-- The characters of a name that separate nothing. -/
def bare (cs : List Char) : List Char :=
  cs.filter (!isSeparator ·)

theorem bare_append (xs ys : List Char) : bare (xs ++ ys) = bare xs ++ bare ys :=
  filter_append ..

theorem bare_bare (cs : List Char) : bare (bare cs) = bare cs := by
  simp [bare, filter_filter]

/-- All separators are in ASCII. -/
theorem isAscii_of_bare {cs : List Char} (h : IsAscii (bare cs)) : IsAscii cs := by
  intro c hc
  by_cases hsep : isSeparator c = true
  · simp only [isSeparator, Bool.or_eq_true, beq_iff_eq] at hsep
    rcases hsep with (((rfl | rfl) | rfl) | rfl) | rfl <;> decide
  · exact h c (mem_filter.2 ⟨hc, by simpa using hsep⟩)

theorem bare_fold (cs : List Char) : bare (fold cs) = fold (bare cs) := by
  have hchar : ∀ c : Char, isSeparator c.toLower = isSeparator c := by
    intro c
    by_cases h : c.toNat < 128
    · exact (Text.ascii_letter h).2.2.2.2
    · rw [Text.toLower_of_not_ascii h]
  rw [bare, fold, filter_map, fold, bare]
  exact congrArg _ (filter_congr fun c _ => by simp [hchar])

theorem flatten_words (cs : List Char) : (words cs).flatten = fold (bare cs) := by
  have hcons : ∀ (c : Char) (rest : List (List Char)),
      (consWord c rest).flatten = c :: rest.flatten := by
    intro c rest
    cases rest <;> rfl
  have hfrom : ∀ before, (wordsFrom before cs).flatten = fold (bare cs) := by
    induction cs with
    | nil => exact fun before => rfl
    | cons c cs ih =>
      intro before
      rw [wordsFrom, bare]
      split
      · rename_i hsep
        rw [filter_cons_of_neg (by simp [hsep]), flatten_cons, ih]
        rfl
      · rename_i hsep
        rw [filter_cons_of_pos (by simpa using hsep)]
        simp only
        split
        · rw [flatten_cons, nil_append, hcons, ih]
          rfl
        · rw [hcons, ih]
          rfl
  rw [words, flatten_filter_ne_nil, hfrom]

theorem bare_of_mem_words {cs word : List Char} (h : word ∈ words cs) :
    bare word = word := by
  refine filter_eq_self.2 fun c hc => ?_
  have hmem : c ∈ bare (fold cs) := by
    rw [bare_fold, ← flatten_words]
    exact mem_flatten.2 ⟨word, h, hc⟩
  exact (mem_filter.1 hmem).2

theorem bare_kebabCase (cs : List Char) : bare (kebabCase cs) = fold (bare cs) := by
  have hjoin : ∀ ws : List (List Char), (∀ w ∈ ws, bare w = w) →
      bare (['-'].intercalate ws) = ws.flatten := by
    intro ws hws
    induction ws with
    | nil => rfl
    | cons w ws ih =>
      obtain ⟨hw, hws⟩ := forall_mem_cons.1 hws
      cases ws with
      | nil => simp [List.intercalate, hw]
      | cons w' ws =>
        have hhyphen : bare ['-'] = [] := by decide
        rw [intercalate_cons_cons, bare_append, bare_append, hw, hhyphen, append_nil,
          ih hws, flatten_cons, flatten_cons, flatten_cons]
  rw [kebabCase, hjoin _ fun _ => bare_of_mem_words, flatten_words]

/-- The plural puts letters behind a word, or in the place of its last
one. -/
theorem bare_plural (cs : List Char) :
    (∃ ending ∈ ["s", "es"], bare (plural cs) = bare cs ++ ending.toList)
      ∨ ∃ stem, bare cs = stem ++ ['y'] ∧ bare (plural cs) = stem ++ "ies".toList := by
  have hbehind : ∀ ending ∈ ["s", "es"],
      bare (cs ++ ending.toList) = bare cs ++ ending.toList := by
    intro ending hending
    have hbare : bare ending.toList = ending.toList := by
      revert ending
      decide
    rw [bare_append, hbare]
  unfold plural
  split
  · rename_i stem hsuffix
    split
    · have hcs : stem ++ ['y'] = cs := isSuffixOf?_eq_some_iff_append_eq.1 hsuffix
      refine .inr ⟨bare stem, ?_, ?_⟩
      · rw [← hcs, bare_append]
        rfl
      · rw [bare_append]
        rfl
    · exact .inl ⟨"s", by decide, hbehind "s" (by decide)⟩
  · split
    · exact .inl ⟨"es", by decide, hbehind "es" (by decide)⟩
    · exact .inl ⟨"s", by decide, hbehind "s" (by decide)⟩

theorem isAscii_plural {cs : List Char} (h : IsAscii cs) : IsAscii (plural cs) := by
  refine isAscii_of_bare ?_
  have hbare : IsAscii (bare cs) := h.of_subset (filter_subset_self _)
  rcases bare_plural cs with ⟨ending, hending, hplural⟩ | ⟨stem, hcs, hplural⟩
  · have hascii : ∀ ending ∈ ["s", "es"], IsAscii ending.toList := by decide
    rw [hplural]
    exact hbare.append (hascii ending hending)
  · rw [hcs] at hbare
    rw [hplural]
    exact (hbare.of_subset (subset_append_left stem ['y'])).append (by decide)

theorem fold_capitalize {cs : List Char} (h : IsAscii cs) :
    fold (capitalize cs) = fold cs := by
  cases cs with
  | nil => rfl
  | cons c cs =>
    have hc := h c mem_cons_self
    obtain ⟨-, -, hcase, -⟩ := Text.ascii_letter hc
    rw [capitalize, Text.upper, if_pos hc, singleton_append, fold, map_cons, hcase,
      fold, map_cons]

theorem fold_uncapitalize {cs : List Char} (h : IsAscii cs) :
    fold (uncapitalize cs) = fold cs := by
  cases cs with
  | nil => rfl
  | cons c cs =>
    rw [uncapitalize, Text.lower, if_pos (h c mem_cons_self), singleton_append, fold,
      map_cons, Text.toLower_toLower, fold, map_cons]

/-- Spelling the words of a name one by one keeps the characters if it does
so for each word. -/
theorem fold_flatten_map {f : List Char → List Char} {ws : List (List Char)}
    (h : ∀ w ∈ ws, fold (f w) = fold w) :
    fold (ws.map f).flatten = fold ws.flatten := by
  rw [Text.fold_flatten, Text.fold_flatten, map_map]
  exact congrArg List.flatten (map_congr_left h)

section

variable {cs : List Char} (h : IsAscii cs)

include h

theorem isAscii_bare : IsAscii (bare cs) :=
  h.of_subset (filter_subset_self _)

theorem fold_pascalCase : fold (pascalCase cs) = fold (bare cs) := by
  have hpieces : ∀ piece ∈ pieces isSeparator cs,
      fold (capitalize piece) = fold piece := fun piece hpiece =>
    fold_capitalize (h.of_mem_pieces hpiece)
  rw [pascalCase, fold_flatten_map hpieces, Text.flatten_pieces, bare]

theorem fold_camelCase : fold (camelCase cs) = fold (bare cs) := by
  have hascii : IsAscii (pascalCase cs) := (isAscii_bare h).of_fold_eq (fold_pascalCase h)
  rw [camelCase, fold_uncapitalize hascii, fold_pascalCase h]

theorem fold_namespaceName : fold (namespaceName cs) = fold (bare cs) := by
  have hwords : ∀ word ∈ words cs, fold (namespaceWord word) = fold word := by
    intro word hword
    have hascii : IsAscii word := by
      refine (Text.isAscii_fold_iff.2 (isAscii_bare h)).of_subset fun c hc => ?_
      rw [← flatten_words]
      exact mem_flatten.2 ⟨word, hword, hc⟩
    unfold namespaceWord
    split
    · rw [fold, fold, map_map]
      exact map_congr_left fun c hc => (Text.ascii_letter (hascii c hc)).2.2.1
    · exact fold_capitalize hascii
  rw [namespaceName, fold_flatten_map hwords, flatten_words, Text.fold_fold]

end

end Naming

end TypedContent

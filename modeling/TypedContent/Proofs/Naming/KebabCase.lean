import Mathlib.Data.List.DropRight
import TypedContent.Proofs.Lists
import TypedContent.Proofs.Naming.Characters
import TypedContent.Proofs.Naming.HyphenatedNames
import TypedContent.Proofs.Source.SquashedLexemes

/-!
# Names in kebab case

Kebab case is a normal form of names. A text is in it (`IsKebab`) if it has
no capitals and no separators but single hyphens inside. Every text is
brought into it by `kebabCase`, and the texts that are in it are those that
`kebabCase` leaves alone (`kebabCase_eq_self_iff`).

The words of a name are ended by separators and by capitals. In kebab case
there are no capitals, so what stands between the hyphens is the words again
(`words_kebabCase`), whatever ended them before. Endpoints and namespaces
are made of words, and for them a name is as good as its kebab case.

Kebab case can be written in one pass, where a hyphen is put only behind
what does not end in one already, and hyphens at the end are taken away when
the pass is over (`kebabCase_eq_pass`).
-/

namespace TypedContent

open List

namespace Naming

open Text (fold)

variable {cs : List Char} {ws : List (List Char)}

/-! ## Kebab case as a normal form -/

/-- Small letters and other characters, with single hyphens between them and
no other separator. -/
structure IsKebab (cs : List Char) : Prop where
  no_capital : ∀ c ∈ cs, c.isUpper = false
  only_hyphens : ∀ c ∈ cs, isSeparator c = true → c = '-'
  not_leading : cs.head? ≠ some '-'
  not_trailing : cs.getLast? ≠ some '-'
  not_doubled : ¬ ['-', '-'] <:+: cs

/-- Words have no separators and no capitals. -/
theorem settled_of_mem_words {w : List Char} (h : w ∈ words cs) : IsSettled w := by
  refine ⟨by simpa using (mem_filter.1 h).2, fun c hc => ?_⟩
  have hmem : c ∈ fold (bare cs) := by
    rw [← flatten_words]
    exact mem_flatten.2 ⟨w, h, hc⟩
  obtain ⟨d, -, rfl⟩ := mem_map.1 hmem
  have hbare : d.toLower ∈ bare w := by rwa [bare_of_mem_words h]
  exact ⟨by simpa using (mem_filter.1 hbare).2, Text.isUpper_toLower d⟩

theorem words_kebabCase (cs : List Char) : words (kebabCase cs) = words cs :=
  words_intercalate fun _ => settled_of_mem_words

theorem not_doubled_intercalate (h : ∀ w ∈ ws, IsSettled w) :
    ¬ ['-', '-'] <:+: ['-'].intercalate ws := by
  induction ws with
  | nil => simp
  | cons w ws ih =>
    obtain ⟨hw, hws⟩ := forall_mem_cons.1 h
    have hword : ¬ ['-', '-'] <:+: w :=
      fun hpair => hw.hyphen_notMem (hpair.subset mem_cons_self)
    cases ws with
    | nil => rwa [intercalate_singleton]
    | cons v ws =>
      rw [intercalate_cons_cons, infix_pair_append, infix_pair_append]
      rintro ((hpair | hpair | ⟨hlast, -⟩) | hpair | ⟨-, hhead⟩)
      · exact hword hpair
      · exact absurd hpair.length_le (by decide)
      · exact hw.hyphen_notMem (mem_of_getLast? hlast)
      · exact ih hws hpair
      · -- the next word does not start with a hyphen
        have hsettled : ∀ c ∈ (['-'].intercalate (v :: ws)).head?,
            isSeparator c = false :=
          Source.head?_intercalate fun v hv => (hws v hv).parts
        exact absurd (hsettled '-' hhead) (by decide)

theorem getLast?_intercalate_ne (h : ∀ w ∈ ws, IsSettled w) :
    (['-'].intercalate ws).getLast? ≠ some '-' := by
  intro hlast
  have hsettled : ∀ c ∈ (['-'].intercalate ws).getLast?, isSeparator c = false :=
    Source.getLast?_intercalate fun w hw => (h w hw).parts
  exact absurd (hsettled '-' hlast) (by decide)

theorem isKebab_kebabCase (cs : List Char) : IsKebab (kebabCase cs) where
  no_capital := forall_mem_intercalate (by decide) fun _ hw c hc =>
    ((settled_of_mem_words hw).2 c hc).2
  only_hyphens := by
    refine forall_mem_intercalate (fun _ => rfl) fun w hw c hc hsep => ?_
    rw [((settled_of_mem_words hw).2 c hc).1] at hsep
    cases hsep
  not_leading := by
    intro hhead
    have hsettled : ∀ c ∈ (kebabCase cs).head?, isSeparator c = false :=
      Source.head?_intercalate fun _ hw => (settled_of_mem_words hw).parts
    exact absurd (hsettled '-' hhead) (by decide)
  not_trailing := getLast?_intercalate_ne fun _ => settled_of_mem_words
  not_doubled := not_doubled_intercalate fun _ => settled_of_mem_words

/-! ## Kebab case in one pass -/

/-- Put a hyphen behind what has been written, unless there is nothing or
one already. -/
def hyphenate (out : List Char) : List Char :=
  if out = [] ∨ out.getLast? = some '-' then out else out ++ ['-']

/-- One pass over a name, where `out` has been written and `before` is the
character in front of the rest. -/
def kebabFrom (out : List Char) (before : Option Char) : List Char → List Char
  | [] => out
  | c :: cs =>
    if isSeparator c then kebabFrom (hyphenate out) (some c) cs
    else if c.isUpper then
      kebabFrom ((if startsWord before cs.head? then hyphenate out else out)
        ++ [c.toLower]) (some c) cs
    else kebabFrom (out ++ [c]) (some c) cs

/-- The first word continues what has been written, and a hyphen comes
before each of the others. -/
def joinFrom (out : List Char) : List (List Char) → List Char
  | [] => out
  | w :: ws => ws.foldl (fun out w => hyphenate out ++ w) (out ++ w)

theorem wordsFrom_ne_nil (before : Option Char) (cs : List Char) :
    wordsFrom before cs ≠ [] := by
  cases cs with
  | nil => simp [wordsFrom]
  | cons c cs =>
    rw [wordsFrom]
    split
    · simp
    · cases wordsFrom (some c) cs <;> simp only [consWord] <;> split <;> simp

theorem toLower_of_isUpper_false {c : Char} (h : c.isUpper = false) : c.toLower = c := by
  rw [Char.toLower, dif_neg]
  simpa [Char.isUpper] using h

theorem kebabFrom_eq (out : List Char) (before : Option Char) (cs : List Char) :
    kebabFrom out before cs = joinFrom out (wordsFrom before cs) := by
  induction cs generalizing out before with
  | nil => simp [kebabFrom, wordsFrom, joinFrom]
  | cons c cs ih =>
    obtain ⟨w, ws, hws⟩ := exists_cons_of_ne_nil (wordsFrom_ne_nil (some c) cs)
    have hjoin : ∀ out, joinFrom out (wordsFrom (some c) cs)
        = ws.foldl (fun out w => hyphenate out ++ w) (out ++ w) := by
      intro out
      rw [hws]
      rfl
    rw [kebabFrom, wordsFrom]
    split
    · rw [ih, hjoin, hws, joinFrom, append_nil, foldl_cons]
    · rw [ih, ih, hjoin, hjoin, hws, consWord]
      cases hupper : c.isUpper with
      | false => simp [joinFrom, toLower_of_isUpper_false hupper]
      | true =>
        cases startsWord before cs.head? <;> simp [joinFrom]

/-- Words joined by hyphens, with one more hyphen at the end or without
it. -/
def IsJoined (ws : List (List Char)) (out : List Char) : Prop :=
  out = ['-'].intercalate ws ∨ ws ≠ [] ∧ out = ['-'].intercalate ws ++ ['-']

theorem IsJoined.step (hws : ∀ w ∈ ws, IsSettled w) {out : List Char}
    (h : IsJoined ws out) (w : List Char) :
    IsJoined (ws ++ [w].filter (· ≠ [])) (hyphenate out ++ w) := by
  have hlast := getLast?_intercalate_ne hws
  by_cases hnil : ws = []
  · obtain rfl : out = [] := by simpa [IsJoined, hnil] using h
    by_cases hw : w = [] <;> simp [IsJoined, hnil, hw, hyphenate]
  · have hjoined : ['-'].intercalate ws ≠ [] := by
      obtain ⟨v, vs, rfl⟩ := exists_cons_of_ne_nil hnil
      have hv := (hws v mem_cons_self).1
      cases vs <;> simp [hv, intercalate_cons_cons]
    have hout : hyphenate out = ['-'].intercalate ws ++ ['-'] := by
      rcases h with rfl | ⟨-, rfl⟩
      · rw [hyphenate, if_neg (not_or.2 ⟨hjoined, hlast⟩)]
      · rw [hyphenate, if_pos (.inr getLast?_concat)]
    rw [hout]
    by_cases hw : w = []
    · exact .inr ⟨by simp [hnil], by simp [hw]⟩
    · refine .inl ?_
      rw [filter_cons_of_pos (by simpa using hw), filter_nil,
        intercalate_append hnil (by simp), intercalate_singleton]

theorem isJoined_foldl {vs : List (List Char)}
    (h : ∀ w ∈ ws ++ vs.filter (· ≠ []), IsSettled w) {out : List Char}
    (hout : IsJoined ws out) :
    IsJoined (ws ++ vs.filter (· ≠ []))
      (vs.foldl (fun out w => hyphenate out ++ w) out) := by
  induction vs generalizing ws out with
  | nil => simpa using hout
  | cons v vs ih =>
    have hws : ∀ w ∈ ws, IsSettled w := fun w hw => h w (mem_append_left _ hw)
    have hsplit : ws ++ (v :: vs).filter (· ≠ [])
        = ws ++ [v].filter (· ≠ []) ++ vs.filter (· ≠ []) := by
      rw [append_assoc, ← filter_append, singleton_append]
    rw [hsplit] at h ⊢
    exact ih h (hout.step hws v)

/-- **Kebab case is written in one pass,** and hyphens at the end are taken
away. -/
theorem kebabCase_eq_pass (cs : List Char) :
    kebabCase cs = (kebabFrom [] none cs).rdropWhile (· == '-') := by
  obtain ⟨w, ws, hws⟩ := exists_cons_of_ne_nil (wordsFrom_ne_nil none cs)
  have hsettled : ∀ w ∈ words cs, IsSettled w := fun _ => settled_of_mem_words
  have hwords : words cs = [w].filter (· ≠ []) ++ ws.filter (· ≠ []) := by
    rw [words, hws, ← filter_append, singleton_append]
  have hfirst : IsJoined ([w].filter (· ≠ [])) w := by
    by_cases hw : w = [] <;> simp [IsJoined, hw]
  have hjoined : IsJoined (words cs) (kebabFrom [] none cs) := by
    rw [kebabFrom_eq, hws, hwords]
    exact isJoined_foldl (hwords ▸ hsettled) hfirst
  have hlast := getLast?_intercalate_ne hsettled
  have hstop : (kebabCase cs).rdropWhile (· == '-') = kebabCase cs := by
    rw [rdropWhile_eq_self_iff]
    intro hne heq
    exact hlast (getLast?_eq_some_getLast hne ▸ congrArg some (beq_iff_eq.1 heq))
  rcases hjoined with h | ⟨-, h⟩
  · rw [h]
    exact hstop.symm
  · rw [h, rdropWhile_concat_pos _ _ _ (by decide)]
    exact hstop.symm

/-! ## Texts in kebab case -/

/-- Where only single hyphens separate, no gap can be made shorter. -/
theorem condense_of_single (honly : ∀ c ∈ cs, isSeparator c = true → c = '-')
    (hsingle : ¬ ['-', '-'] <:+: cs) : Source.condense isSeparator '-' cs = cs := by
  induction cs with
  | nil => rfl
  | cons c cs ih =>
    obtain ⟨hc, hcs⟩ := forall_mem_cons.1 honly
    have hrest := ih hcs fun hpair => hsingle (infix_cons hpair)
    cases hsep : isSeparator c with
    | false => rw [Source.condense_cons hsep, hrest]
    | true =>
      obtain rfl := hc hsep
      have hnext : cs.head?.any isSeparator = false := by
        cases cs with
        | nil => rfl
        | cons d cs =>
          refine Bool.eq_false_iff.2 fun hd => hsingle ?_
          obtain rfl := hcs d mem_cons_self hd
          exact ⟨[], cs, rfl⟩
      rw [Source.condense, if_pos hsep, hnext, if_neg Bool.false_ne_true, hrest]

theorem IsKebab.kebabCase_eq (h : IsKebab cs) : kebabCase cs = cs := by
  obtain ⟨back, hback, hcondense⟩ := Source.exists_condense_eq isSeparator '-' cs
  have hfront : cs.head?.any isSeparator = false := by
    refine Bool.eq_false_iff.2 fun hany => ?_
    obtain ⟨c, hhead, hsep⟩ := (Option.any_eq_true _ _).1 hany
    exact h.not_leading (h.only_hyphens c (mem_of_head? hhead) hsep ▸ hhead)
  have hwords : Source.stretches isSeparator cs = words cs :=
    (words_of_no_capital h.no_capital).symm
  rw [condense_of_single h.only_hyphens h.not_doubled, hfront,
    if_neg Bool.false_ne_true, nil_append, hwords]
    at hcondense
  rcases hback with rfl | ⟨rfl, -⟩
  · rw [append_nil] at hcondense
    exact hcondense.symm
  · exact absurd (by rw [hcondense, getLast?_concat]) h.not_trailing

theorem kebabCase_eq_self_iff : kebabCase cs = cs ↔ IsKebab cs :=
  ⟨fun h => h ▸ isKebab_kebabCase cs, IsKebab.kebabCase_eq⟩

/-- In kebab case a character is a separator if it is a hyphen. -/
theorem IsKebab.filter_hyphen (h : IsKebab cs) : cs.filter (· ≠ '-') = bare cs := by
  refine filter_congr fun c hc => ?_
  cases hsep : isSeparator c with
  | true => simp [h.only_hyphens c hc hsep]
  | false =>
    have hne : c ≠ '-' := by
      rintro rfl
      cases hsep
    simp [hne]

/-- **Kebab case is a stable normal form of names.** It has no capitals and
no separators but single hyphens inside; its other characters are those of
the name, separators apart, in lower case and in their order. A text stays
as it is exactly if it is of that form, so kebab case is reached in one
step. The endpoint and the namespace of a name are those of its kebab
case. -/
theorem kebab_case_stable (cs : List Char) :
    IsKebab (kebabCase cs)
      ∧ (kebabCase cs).filter (· ≠ '-') = (cs.filter (!isSeparator ·)).map Char.toLower
      ∧ (kebabCase cs = cs ↔ IsKebab cs)
      ∧ kebabCase (kebabCase cs) = kebabCase cs
      ∧ (∀ single, endpointName (kebabCase cs) single = endpointName cs single)
      ∧ namespaceName (kebabCase cs) = namespaceName cs := by
  have hkebab := isKebab_kebabCase cs
  have hstable : kebabCase (kebabCase cs) = kebabCase cs := hkebab.kebabCase_eq
  refine ⟨hkebab, ?_, kebabCase_eq_self_iff, hstable, fun single => ?_, ?_⟩
  · rw [hkebab.filter_hyphen, bare_kebabCase]
    rfl
  · rw [endpointName, endpointName, hstable]
  · rw [namespaceName, words_kebabCase, namespaceName]

end Naming

end TypedContent

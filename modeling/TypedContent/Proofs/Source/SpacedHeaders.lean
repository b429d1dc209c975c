import TypedContent.Proofs.Source.Headers
import TypedContent.Proofs.Source.SpacedBlocks

/-!
# Layout of headers

Headers are searched in the raw text, comments and literals included. Where
the headers that are found are those of the code (`HeadersInCode`), layout
does not matter to the search: the pieces of a header take any run of blanks
for a blank, so a search through a condensed text finds what a search
through the text finds (`IsHeader.found_condensed`).
-/

namespace TypedContent

namespace Source

open List Text

variable {c : Char} {word : String} {q : Char → Bool} {cs rest : List Char}

/-! ## Pieces of patterns -/

/-- The blank characters by number. -/
def blankCodes : List Nat :=
  [9, 10, 11, 12, 13, 0x20, 0x85, 0xA0, 0x1680, 0x2000, 0x2001, 0x2002, 0x2003, 0x2004,
    0x2005, 0x2006, 0x2007, 0x2008, 0x2009, 0x200A, 0x2028, 0x2029, 0x202F,
    0x205F, 0x3000]

theorem isWord_of_isBlank (h : isBlank c = true) : isWord c = false := by
  have hall : ∀ n ∈ blankCodes, isWord (Char.ofNat n) = false := by decide +kernel
  have hmem : c.toNat ∈ blankCodes := by
    simp only [isBlank, Bool.or_eq_true, Bool.and_eq_true, decide_eq_true_eq,
      beq_iff_eq] at h
    generalize c.toNat = n at h
    rcases h with (((((((((h | rfl) | rfl) | rfl) | rfl) | h) | rfl) | rfl) | rfl)
      | rfl) | rfl
    case inl.inl.inl.inl.inl.inl.inl.inl.inl.inl | inl.inl.inl.inl.inl.inr =>
      simp only [blankCodes, mem_cons, not_mem_nil, or_false]
      omega
    all_goals decide
  have hchar := hall c.toNat hmem
  rwa [Char.ofNat_toNat] at hchar

theorem condensed_cons (h : isBlank c = false) (cs : List Char) :
    condensed (c :: cs) = c :: condensed cs :=
  condense_cons h cs

/-- A condensed text starts with a space if the text starts with a blank. -/
theorem exists_condensed (h : isBlank c = true) (cs : List Char) :
    ∃ rest, condensed (c :: cs) = ' ' :: rest := by
  have hhead : (condensed (c :: cs)).head? = some ' ' := by
    rw [condensed, head?_condense, head?_cons, Option.any_some, h]
    rfl
  exact head?_eq_some_iff.1 hhead

theorem isPrefixOf?_condensed {word : List Char} (h : ∀ c ∈ word, isBlank c = false)
    (cs : List Char) :
    word.isPrefixOf? (condensed cs) = (word.isPrefixOf? cs).map condensed := by
  induction word generalizing cs with
  | nil => rfl
  | cons c word ih =>
    rw [forall_mem_cons] at h
    cases cs with
    | nil => rfl
    | cons d cs =>
      cases hd : isBlank d with
      | false =>
        rw [condensed_cons hd, List.isPrefixOf?, List.isPrefixOf?, ih h.2]
        split <;> rfl
      | true =>
        obtain ⟨rest, hrest⟩ := exists_condensed hd cs
        have hne : (c == d) = false := by
          rw [beq_eq_false_iff_ne]
          rintro rfl
          rw [h.1] at hd
          cases hd
        have hspace : (c == ' ') = false := by
          rw [beq_eq_false_iff_ne]
          rintro rfl
          cases h.1
        rw [hrest, List.isPrefixOf?, List.isPrefixOf?, hne, hspace]
        rfl

theorem word?_condensed (h : ∀ c ∈ word.toList, isBlank c = false) (cs : List Char) :
    word? word (condensed cs) = (word? word cs).map condensed :=
  isPrefixOf?_condensed h cs

theorem trimStart_condensed (cs : List Char) :
    trimStart (condensed cs) = condensed (trimStart cs) :=
  dropWhile_condense rfl cs

theorem blanks?_condensed (cs : List Char) :
    blanks? (condensed cs) = (blanks? cs).map condensed := by
  have hhead : (condensed cs).head?.any isBlank = cs.head?.any isBlank := by
    rw [condensed, head?_condense]
    split
    · rename_i hblank
      rw [hblank]
      rfl
    · rfl
  rw [blanks?, blanks?, hhead, trimStart_condensed]
  split <;> rfl

theorem char?_condensed (h : isBlank c = false) (cs : List Char) :
    char? c (condensed cs) = (char? c cs).map condensed := by
  cases cs with
  | nil => rfl
  | cons d cs =>
    cases hd : isBlank d with
    | false =>
      rw [condensed_cons hd, char?, char?]
      split <;> rfl
    | true =>
      obtain ⟨rest, hrest⟩ := exists_condensed hd cs
      have hne : d ≠ c := by
        rintro rfl
        rw [h] at hd
        cases hd
      have hspace : ' ' ≠ c := by
        rintro rfl
        cases h
      rw [hrest, char?, char?, if_neg hne, if_neg hspace]
      rfl

theorem span_condensed (h : ∀ c, isBlank c = true → q c = false) (cs : List Char) :
    (condensed cs).takeWhile q = cs.takeWhile q
      ∧ (condensed cs).dropWhile q = condensed (cs.dropWhile q) := by
  induction cs with
  | nil => exact ⟨rfl, rfl⟩
  | cons c cs ih =>
    cases hc : isBlank c with
    | false =>
      rw [condensed_cons hc]
      cases hq : q c with
      | true =>
        rw [takeWhile_cons_of_pos hq, takeWhile_cons_of_pos hq, dropWhile_cons_of_pos hq,
          dropWhile_cons_of_pos hq]
        exact ⟨congrArg _ ih.1, ih.2⟩
      | false =>
        have hnot : ¬ q c = true := by simp [hq]
        rw [takeWhile_cons_of_neg hnot, takeWhile_cons_of_neg hnot,
          dropWhile_cons_of_neg hnot, dropWhile_cons_of_neg hnot, condensed_cons hc]
        exact ⟨rfl, rfl⟩
    | true =>
      obtain ⟨rest, hrest⟩ := exists_condensed hc cs
      have hnot : ¬ q c = true := by simp [h c hc]
      have hspace : ¬ q ' ' = true := by simp [h ' ' rfl]
      rw [takeWhile_cons_of_neg hnot, dropWhile_cons_of_neg hnot, hrest,
        takeWhile_cons_of_neg hspace, dropWhile_cons_of_neg hspace]
      exact ⟨rfl, rfl⟩

theorem run?_condensed (h : ∀ c, isBlank c = true → q c = false) (cs : List Char) :
    run? q (condensed cs) = (run? q cs).map (Prod.map id condensed) := by
  obtain ⟨htake, hdrop⟩ := span_condensed h cs
  simp only [run?, span_eq_takeWhile_dropWhile, htake, hdrop]
  split <;> rfl

theorem isNameChar_of_isBlank (h : isBlank c = true) :
    (c.isAlpha || c == '_' || c == '$') = false ∧ (isWord c || c == '$') = false := by
  have hword := isWord_of_isBlank h
  have hdollar : (c == '$') = false := by
    rw [beq_eq_false_iff_ne]
    rintro rfl
    cases h
  simp only [isWord, Char.isAlphanum, Bool.or_eq_false_iff] at hword ⊢
  simp [hword, hdollar]

theorem name?_condensed (cs : List Char) :
    name? (condensed cs) = (name? cs).map (Prod.map id condensed) := by
  cases cs with
  | nil => rfl
  | cons c cs =>
    cases hc : isBlank c with
    | false =>
      obtain ⟨htake, hdrop⟩ :=
        span_condensed (fun d hd => (isNameChar_of_isBlank hd).2) cs
      simp only [condensed_cons hc, name?, span_eq_takeWhile_dropWhile, htake, hdrop]
      split <;> rfl
    | true =>
      obtain ⟨rest, hrest⟩ := exists_condensed hc cs
      rw [hrest, name?, name?, (isNameChar_of_isBlank hc).1]
      rfl

/-! ## What pieces leave -/

theorem word?_suffix (h : word? word cs = some rest) : rest <:+ cs :=
  ⟨word.toList, isPrefixOf?_eq_some_iff_append_eq.1 h⟩

theorem blanks?_suffix (h : blanks? cs = some rest) : rest <:+ cs := by
  unfold blanks? at h
  split at h
  · exact Option.some.inj h ▸ dropWhile_suffix _
  · cases h

theorem run?_suffix {run : List Char} (h : run? q cs = some (run, rest)) :
    rest <:+ cs := by
  simp only [run?, span_eq_takeWhile_dropWhile] at h
  split at h
  · cases h
  · exact (Prod.mk.inj (Option.some.inj h)).2 ▸ dropWhile_suffix _

theorem name?_suffix {name : List Char} (h : name? cs = some (name, rest)) :
    rest <:+ cs := by
  cases cs with
  | nil => cases h
  | cons c cs =>
    simp only [name?, span_eq_takeWhile_dropWhile] at h
    split at h
    · exact (Prod.mk.inj (Option.some.inj h)).2 ▸ (dropWhile_suffix _).trans
        (suffix_cons c cs)
    · cases h

theorem brace?_suffix (h : char? '{' (trimStart cs) = some rest) :
    '{' :: rest <:+ cs := by
  have hbrace : trimStart cs = '{' :: rest := by
    cases hstart : trimStart cs with
    | nil =>
      rw [hstart] at h
      cases h
    | cons c after =>
      rw [hstart, char?] at h
      split at h
      · rename_i hc
        rw [hc, Option.some.inj h]
      · cases h
  exact hbrace ▸ dropWhile_suffix _

theorem word?_cons_blank (hne : word.toList ≠ [])
    (hword : ∀ c ∈ word.toList, isBlank c = false) (hc : isBlank c = true)
    (cs : List Char) :
    word? word (c :: cs) = none := by
  obtain ⟨d, ds, hd⟩ := exists_cons_of_ne_nil hne
  have hcd : (d == c) = false := by
    rw [beq_eq_false_iff_ne]
    rintro rfl
    rw [hword d (hd ▸ mem_cons_self)] at hc
    cases hc
  rw [word?, hd, List.isPrefixOf?, hcd]
  rfl

/-! ## Headers -/

/-- What layout may rely on in a header pattern: it starts with no blank,
ends with a brace, and takes one run of blanks for another. -/
structure IsHeader {α : Type} (p : Pattern α) : Prop where
  starts : ∀ {before c} (cs : List Char), isBlank c = true → p before (c :: cs) = none
  ends : ∀ {before cs x rest}, p before cs = some (x, rest) → '{' :: rest <:+ cs
  respaced : ∀ {before before' : Option Char} (cs : List Char),
    before.any isWord = before'.any isWord →
    p before' (condensed cs) = (p before cs).map (Prod.map id condensed)

namespace IsHeader

variable {before : Option Char}

variable {α : Type} {p : Pattern α} (hp : IsHeader p)

include hp

theorem found_step {x : α} (h : p before cs = some (x, rest)) :
    p.matchesFrom 0 before cs = (x, rest) :: p.matchesFrom 0 (some '{') rest := by
  obtain ⟨front, hfront⟩ := hp.ends h
  have hcs : cs = (front ++ ['{']) ++ rest := by
    rw [append_assoc, singleton_append, hfront]
  rw [hcs] at h ⊢
  rw [Pattern.found_step (by simp) h, getLast?_append, getLast?_singleton, Option.some_or]

theorem matchesFrom_condensed (cs : List Char) {before' : Option Char}
    (h : cs.head?.any isBlank = false → before.any isWord = before'.any isWord) :
    p.matchesFrom 0 before' (condensed cs)
      = (p.matchesFrom 0 before cs).map (Prod.map id condensed) := by
  induction hlength : cs.length using Nat.strongRecOn generalizing cs before before' with
  | ind n ih =>
    cases cs with
    | nil => rfl
    | cons c cs =>
      have hshorter : cs.length < n := by
        rw [← hlength, length_cons]
        exact Nat.lt_succ_self _
      cases hc : isBlank c with
      | true =>
        rw [Pattern.matchesFrom, hp.starts cs hc, condensed, condense, if_pos hc]
        split
        · rename_i hnext
          exact ih cs.length hshorter cs
            (fun hnot => by rw [hnext] at hnot; cases hnot) rfl
        · rw [Pattern.matchesFrom, hp.starts _ rfl]
          refine ih cs.length hshorter cs (fun _ => ?_) rfl
          rw [Option.any_some, Option.any_some, isWord_of_isBlank hc]
          rfl
      | false =>
        have hread := hp.respaced (c :: cs) (h hc)
        cases hfound : p before (c :: cs) with
        | none =>
          rw [hfound, condensed_cons hc] at hread
          rw [Pattern.matchesFrom, hfound, condensed_cons hc, Pattern.matchesFrom, hread]
          exact ih cs.length hshorter cs (fun _ => rfl) rfl
        | some found =>
          obtain ⟨x, rest⟩ := found
          rw [hfound] at hread
          have hrest : rest.length < n := by
            have hle := (hp.ends hfound).length_le
            rw [hlength, length_cons] at hle
            exact hle
          rw [hp.found_step hfound, hp.found_step hread,
            ih rest.length hrest rest (fun _ => rfl) rfl]
          rfl

/-- The headers of a text in any layout. -/
theorem found_condensed (cs : List Char) :
    p.found (condensed cs) = (p.found cs).map (Prod.map id condensed) :=
  hp.matchesFrom_condensed cs fun _ => rfl

theorem suffix_of_mem_matchesFrom {x : α}
    (h : (x, rest) ∈ p.matchesFrom 0 before cs) : '{' :: rest <:+ cs := by
  induction hlength : cs.length using Nat.strongRecOn generalizing cs before with
  | ind n ih =>
    cases cs with
    | nil => cases h
    | cons c cs =>
      cases hfound : p before (c :: cs) with
      | none =>
        rw [Pattern.matchesFrom, hfound] at h
        exact (ih cs.length (by rw [← hlength]; exact Nat.lt_succ_self _) h rfl).trans
          (suffix_cons c cs)
      | some found =>
        obtain ⟨y, after⟩ := found
        have hends := hp.ends hfound
        rw [hp.found_step hfound] at h
        rcases mem_cons.1 h with heq | h
        · obtain ⟨rfl, rfl⟩ := Prod.mk.inj heq
          exact hends
        · have hle := hends.length_le
          rw [hlength, length_cons] at hle
          exact (ih after.length hle h rfl).trans ((suffix_cons '{' after).trans hends)

end IsHeader

/-! ## Headers in the code -/

/-- What a character counts for in the code: a literal for quotes, a comment
for blanks. -/
def Marked.codeChar : Marked → Char
  | ⟨.code, c⟩ => c
  | ⟨.literal, _⟩ => '"'
  | ⟨.comment, _⟩ => ' '

theorem isBlank_codeChar (m : Marked) : isBlank m.codeChar = m.isGap := by
  obtain ⟨role, c⟩ := m
  cases role <;> simp [Marked.codeChar, Marked.isGap] <;> rfl

theorem eq_of_codeChar {m : Marked} (h : m.codeChar = '{') : m = ⟨.code, '{'⟩ := by
  obtain ⟨role, c⟩ := m
  cases role with
  | code => exact congrArg _ h
  | literal => cases h
  | comment => cases h

theorem codeChars_spaced (ms : List Marked) :
    (spaced ms).map Marked.codeChar = condensed (ms.map Marked.codeChar) :=
  (condense_map isBlank_codeChar ms).symm

variable {α : Type}

/-- The headers of a text, each with the length of what follows it. -/
def Pattern.places (p : Pattern α) (cs : List Char) : List (α × Nat) :=
  (p.found cs).map fun (x, rest) => (x, rest.length)

/-- The headers that are found in a text are those of its code. -/
def HeadersInCode (p : Pattern α) (cs : List Char) : Prop :=
  p.places cs = p.places ((marks cs).map Marked.codeChar)

instance [DecidableEq α] (p : Pattern α) (cs : List Char) :
    Decidable (HeadersInCode p cs) :=
  inferInstanceAs (Decidable (_ = _))

/-- The headers of a text, each with the block behind it. -/
def Pattern.blocks (p : Pattern α) (cs : List Char) : List (α × Option (List Char)) :=
  (p.found cs).map fun (x, rest) => (x, (openedBlock? '{' (marks rest)).map Block.inner)

/-- The block behind a header of a marked text that so much follows. -/
def blockAt (ms : List Marked) (length : Nat) : Option (List Char) :=
  (openedBlock? '{' (ms.drop (ms.length - length))).map Block.inner

theorem blockAt_append (before after : List Marked) (m : Marked) :
    blockAt (before ++ m :: after) after.length
      = (openedBlock? '{' after).map Block.inner := by
  have hdrop : (before ++ m :: after).drop
      ((before ++ m :: after).length - after.length) = after := by
    rw [← singleton_append, ← append_assoc]
    exact drop_left' (by simp only [length_append, length_singleton]; omega)
  rw [blockAt, hdrop]

/-- A header of the code ends with a brace of the code. -/
theorem IsHeader.exists_of_mem_found {p : Pattern α} (hp : IsHeader p)
    {ms : List Marked} {x : α} (h : (x, rest) ∈ p.found (ms.map Marked.codeChar)) :
    ∃ before after, ms = before ++ ⟨.code, '{'⟩ :: after
      ∧ rest = after.map Marked.codeChar := by
  obtain ⟨front, hfront⟩ := hp.suffix_of_mem_matchesFrom h
  obtain ⟨before, tail, rfl, -, htail⟩ := map_eq_append_iff.1 hfront.symm
  obtain ⟨m, after, rfl, hm, rfl⟩ := map_eq_cons_iff.1 htail
  exact ⟨before, after, by rw [eq_of_codeChar hm], rfl⟩

/-- What follows a header is marked on its own as it is in the text. -/
theorem blocks_eq_places {p : Pattern α} (hp : IsHeader p) (h : HeadersInCode p cs) :
    p.blocks cs = (p.places ((marks cs).map Marked.codeChar)).map
      (Prod.map id (blockAt (marks cs))) := by
  rw [← h, Pattern.places, map_map]
  refine map_congr_left fun (x, rest) hfound => ?_
  have hplace : (x, rest.length) ∈ p.places ((marks cs).map Marked.codeChar) :=
    h ▸ mem_map_of_mem hfound
  obtain ⟨⟨y, rest'⟩, hfound', heq⟩ := mem_map.1 hplace
  obtain ⟨before, after, hmarks, rfl⟩ := hp.exists_of_mem_found hfound'
  obtain ⟨-, hlength⟩ := Prod.mk.inj heq
  rw [length_map] at hlength
  have hlexed : Lexed after := ((hmarks ▸ lexed_marks cs).split (by decide)).2
  have hrest : rest = unmark after := by
    have hsuffix : rest <:+ cs :=
      (suffix_cons '{' rest).trans (hp.suffix_of_mem_matchesFrom hfound)
    have hsuffix' : unmark after <:+ cs := by
      rw [← unmark_marks cs, hmarks]
      exact ((suffix_cons _ after).trans (List.suffix_append before _)).map _
    exact (suffix_of_suffix_length_le hsuffix hsuffix'
      (by rw [unmark, length_map, hlength])).eq_of_length
      (by rw [unmark, length_map, hlength])
  rw [Function.comp_apply, Prod.map_apply, ← hlength, hmarks, blockAt_append, hrest]
  exact congrArg (fun ms => (x, (openedBlock? '{' ms).map Block.inner)) hlexed

theorem places_spaced {p : Pattern α} (hp : IsHeader p) {ms : List Marked}
    (hms : Lexed ms) :
    (p.places ((spaced ms).map Marked.codeChar)).map (Prod.map id (blockAt (spaced ms)))
      = ((p.places (ms.map Marked.codeChar)).map (Prod.map id (blockAt ms))).map
          (Prod.map id (Option.map singleSpaced)) := by
  simp only [Pattern.places, codeChars_spaced, hp.found_condensed, map_map]
  refine map_congr_left fun (x, rest) hfound => ?_
  obtain ⟨before, after, rfl, rfl⟩ := hp.exists_of_mem_found hfound
  have hafter : Lexed after := (hms.split (by decide)).2
  have hspaced : spaced (before ++ ⟨.code, '{'⟩ :: after)
      = spaced before ++ ⟨.code, '{'⟩ :: spaced after :=
    condense_append rfl before after
  simp only [Function.comp_apply, Prod.map_apply, id_eq, ← codeChars_spaced, length_map,
    hspaced, blockAt_append, inner_openedBlock?_spaced hafter]

/-- Two texts that differ in layout only have the same headers, and blocks
behind them that differ in layout only. -/
theorem blocks_congr {p : Pattern α} (hp : IsHeader p) {cs' : List Char}
    (h : HeadersInCode p cs) (h' : HeadersInCode p cs')
    (heq : spaced (marks cs) = spaced (marks cs')) :
    (p.blocks cs).map (Prod.map id (Option.map singleSpaced))
      = (p.blocks cs').map (Prod.map id (Option.map singleSpaced)) := by
  rw [blocks_eq_places hp h, blocks_eq_places hp h', ← places_spaced hp (lexed_marks cs),
    ← places_spaced hp (lexed_marks cs'), heq]

end Source

end TypedContent

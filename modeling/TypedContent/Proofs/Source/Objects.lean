import TypedContent.Proofs.Source.Keys
import TypedContent.Proofs.Source.Nesting

/-!
# Where a block ends

A block ends at the first closer that leaves nothing due. So what it
encloses closes all that it opens and nothing else, and the character behind
it is the closer of the block, in the code (`enclosed?_eq_some_iff`).

An *object* is a text that is one block in braces, from its first character
to its last. Both scans that a text is marked and matched by come out of an
object as they went in, so that texts with objects in them are followed
piece by piece (`Passed`).
-/

namespace TypedContent

namespace Source

open List Text

/-- One more closer behind those that are due matters only when it is the
next. -/
theorem nest?_concat {pending after : List Char} {due : Char} {m : Marked}
    (h : nest? (pending ++ [due]) m = some after) :
    (∃ rest, nest? pending m = some rest ∧ after = rest ++ [due])
      ∨ (pending = [] ∧ m = ⟨.code, due⟩ ∧ after = []) := by
  cases hpending : nest? pending m with
  | some rest =>
    rw [nest?_append hpending [due]] at h
    exact .inl ⟨rest, rfl, (Option.some.inj h).symm⟩
  | none =>
    obtain ⟨role, c⟩ := m
    unfold nest? at h hpending
    split at hpending
    · cases hpending
    · rename_i hrole
      obtain rfl : role = .code := by simpa using hrole
      cases hopen : closerOf? c with
      | some closer => simp [hopen] at hpending
      | none =>
        cases pending with
        | nil =>
          have hcloser : isCloser c = true := by simpa [hopen] using hpending
          simp only [ne_eq, not_true_eq_false, if_false, hopen, nil_append, hcloser,
            Bool.not_true, Bool.false_eq_true] at h
          split at h
          · rename_i hdue
            exact .inr ⟨rfl, by rw [hdue], (Option.some.inj h).symm⟩
          · cases h
        | cons first rest =>
          simp only [ne_eq, not_true_eq_false, if_false, hopen, cons_append] at h hpending
          split at hpending
          · cases hpending
          · rename_i hcloser
            split at hpending
            · cases hpending
            · rename_i hfirst
              rw [if_neg hcloser, if_neg hfirst] at h
              cases h

/-- A block ends at its closer, and what it encloses closes what was due
before and what it opens itself. -/
theorem enclosed?_eq_some_iff {due : Char} (hdue : isCloser due = true)
    {pending inner after : List Char} {ms : List Marked} :
    enclosed? (pending ++ [due]) ms = some (inner, after)
      ↔ ∃ xs ys, ms = xs ++ ⟨.code, due⟩ :: ys ∧ nestAll? pending xs = some []
        ∧ inner = unmark xs
        ∧ after = unmark ys := by
  constructor
  · intro h
    induction ms generalizing pending inner with
    | nil => cases h
    | cons m ms ih =>
      rw [enclosed?] at h
      split at h
      · cases h
      · rename_i hnest
        obtain ⟨rfl, rfl⟩ := Prod.mk.inj (Option.some.inj h)
        rcases nest?_concat hnest with ⟨rest, -, hrest⟩ | ⟨rfl, rfl, -⟩
        · exact absurd hrest.symm (append_ne_nil_of_right_ne_nil _ (cons_ne_nil _ _))
        · exact ⟨[], ms, rfl, rfl, rfl, rfl⟩
      · rename_i first outer hnest
        obtain ⟨⟨inner', after'⟩, hrest, hpair⟩ := Option.map_eq_some_iff.1 h
        obtain ⟨rfl, rfl⟩ := Prod.mk.inj hpair
        rcases nest?_concat hnest with ⟨rest, hpending, hafter⟩ | ⟨-, -, hnil⟩
        · rw [hafter] at hrest
          obtain ⟨xs, ys, rfl, hxs, rfl, rfl⟩ := ih hrest
          refine ⟨m :: xs, ys, rfl, ?_, rfl, rfl⟩
          rw [nestAll?, foldlM_cons, hpending]
          exact hxs
        · cases hnil
  · rintro ⟨xs, ys, rfl, hxs, rfl, rfl⟩
    have hend : enclosed? [due] (⟨.code, due⟩ :: ys) = some ([], unmark ys) := by
      rw [enclosed?, nest?_closer hdue]
    rw [enclosed?_append hxs due [], nil_append, hend, Option.map_some,
      extendInner, append_nil]

/-- No block ends in a text that only closes what it opens, whether or not
the blanks at its end are there. -/
theorem enclosed?_trimEnd_eq_none {cs after : List Char}
    (h : nestAll? [] (marks cs) = some after) (due : Char) :
    enclosed? [due] (marks (trimEnd cs)) = none := by
  obtain ⟨blanks, hcs, hblanks⟩ := exists_trimEnd_append cs
  obtain ⟨ms, hms⟩ := marks_append_blanks (trimEnd cs) hblanks
  rw [hcs, hms, nestAll?, foldlM_append] at h
  obtain ⟨middle, hmiddle, -⟩ := Option.bind_eq_some_iff.1 h
  exact enclosed?_eq_none hmiddle due []

/-! ## Texts that a scan passes -/

/-- Marking and matching go through the text without a trace: its literals
and comments are closed, its braces, square brackets and parentheses match,
and no equals sign is left at its end. -/
structure Passed (cs : List Char) : Prop where
  marks_append : ∀ rest, marks (cs ++ rest) = marks cs ++ marks rest
  nested : nestAll? [] (marks cs) = some []
  endsInEquals : endsInEquals false (marks cs) = false

theorem endsInEquals_append_eq (afterEquals : Bool) (xs ys : List Marked) :
    endsInEquals afterEquals (xs ++ ys)
      = endsInEquals (endsInEquals afterEquals xs) ys := by
  induction xs generalizing afterEquals with
  | nil => rfl
  | cons x xs ih => exact ih (x.char == '=')

namespace Passed

theorem nil : Passed [] :=
  ⟨fun _ => rfl, rfl, rfl⟩

theorem append {xs ys : List Char} (hxs : Passed xs) (hys : Passed ys) :
    Passed (xs ++ ys) where
  marks_append rest := by
    rw [append_assoc, hxs.marks_append, hys.marks_append, hxs.marks_append, append_assoc]
  nested := by
    rw [hxs.marks_append, nestAll?, foldlM_append, ← nestAll?, hxs.nested]
    exact hys.nested
  endsInEquals := by
    rw [hxs.marks_append, endsInEquals_append_eq, hxs.endsInEquals, hys.endsInEquals]

end Passed

/-! ## Objects -/

/-- The text starts with a brace, and the partner of this brace is its last
character. -/
def IsObject (cs : List Char) : Prop :=
  cs.head? = some '{' ∧ closeOffset? cs 0 = some (byteLength cs - 1)

instance (cs : List Char) : Decidable (IsObject cs) :=
  inferInstanceAs (Decidable (_ ∧ _))

theorem byteLength_eq_zero {cs : List Char} (h : byteLength cs = 0) : cs = [] := by
  cases cs with
  | nil => rfl
  | cons c cs =>
    have hpos := c.utf8Size_pos
    rw [byteLength_cons] at h
    omega

/-- The partner of a first character that is a brace. -/
theorem closeOffset?_brace (cs : List Char) :
    closeOffset? ('{' :: cs) 0 = (enclosed? ['}'] (marks cs)).map fun found =>
      byteLength found.1 + 1 := by
  have hopen : closeOffset? ('{' :: cs) 0
      = (openedBlock? '{' (marks cs)).bind fun b =>
        some (0 + b.stop - byteLength [b.closer]) := rfl
  have hbrace : Char.utf8Size '{' = 1 ∧ Char.utf8Size '}' = 1 := by decide
  rw [hopen]
  cases hfound : enclosed? ['}'] (marks cs) with
  | none => simp [openedBlock?, closerOf?, hfound]
  | some found => simp [openedBlock?, closerOf?, hfound, Block.stop, Block.start,
    Block.text, hbrace, Nat.add_comm]

namespace IsObject

variable {cs : List Char} (h : IsObject cs)

include h

/-- What stands between the two braces, and how the text is marked. -/
theorem exists_body :
    ∃ body, cs = '{' :: body ++ ['}'] ∧ nestAll? [] (marks body) = some []
    ∧ ∀ rest, marks (cs ++ rest) = ⟨.code, '{'⟩ :: marks body
      ++ ⟨.code, '}'⟩ :: marks rest := by
  obtain ⟨hhead, hclose⟩ := h
  obtain ⟨text, rfl⟩ := head?_eq_some_iff.1 hhead
  rw [closeOffset?_brace] at hclose
  obtain ⟨⟨inner, after⟩, hfound, hoffset⟩ := Option.map_eq_some_iff.1 hclose
  rw [← nil_append ['}']] at hfound
  obtain ⟨xs, ys, hmarks, hnested, rfl, rfl⟩ := (enclosed?_eq_some_iff rfl).1 hfound
  obtain ⟨body, tail, rfl, rfl, rfl, happend⟩ := marks_split (by decide) hmarks
  -- the offset leaves no room behind the partner
  have htail : tail = [] := by
    have hbrace : Char.utf8Size '{' = 1 ∧ Char.utf8Size '}' = 1 := by decide
    refine byteLength_eq_zero ?_
    simp only [unmark_marks, byteLength_cons, byteLength_append, hbrace] at hoffset
    omega
  subst htail
  refine ⟨body, rfl, hnested, fun rest => ?_⟩
  rw [cons_append, append_assoc, singleton_append, marks_cons rfl (by decide), happend]
  rfl

theorem passed : Passed cs := by
  obtain ⟨body, hcs, hnested, hmarks⟩ := h.exists_body
  have hself : marks cs = ⟨.code, '{'⟩ :: marks body ++ [⟨.code, '}'⟩] := by
    have hnil := hmarks []
    rwa [append_nil, marks_nil] at hnil
  refine ⟨fun rest => ?_, ?_, ?_⟩
  · rw [hmarks, hself, append_assoc]
    rfl
  · rw [hself]
    exact nestAll?_block rfl hnested []
  · rw [hself, endsInEquals_append]
    rfl

end IsObject

end Source

end TypedContent

import TypedContent.Proofs.Source.Balanced
import TypedContent.Proofs.Source.SingleSpacing

/-!
# Layout of blocks

The search for the end of a block steps over gaps. So a block of a
single-spaced text is the single-spaced block of the text, whether it starts
at a given brace (`inner_openedBlock?_spaced`) or at the first one
(`inner_block?_singleSpaced`).

This is shown on the marked text, where what is found keeps its marks, and
then carried over to the characters: what lies between two characters of the
code is marked on its own as it was in the whole (`Lexed`).
-/

namespace TypedContent

namespace Source

open List Option Text

variable {c due : Char} {inner after ys blanks ms : List Marked} {m : Marked}
  {outer : List Char}

theorem spaced_cons_of_isGap (h : m.isGap = true) (ms : List Marked) :
    spaced (m :: ms) = if ms.head?.any Marked.isGap then spaced ms
      else ⟨.code, ' '⟩ :: spaced ms := by
  rw [spaced, condense, if_pos h]
  rfl

theorem spaced_cons (h : m.isGap = false) (ms : List Marked) :
    spaced (m :: ms) = m :: spaced ms :=
  condense_cons h ms

/-- A blank, or a character outside of the code: neither a bracket nor a
separator. -/
def Marked.isInert (m : Marked) : Bool :=
  m.role != .code || isBlank m.char

theorem isInert_iff : m.isInert = true ↔ m.role ≠ .code ∨ isBlank m.char = true := by
  simp [Marked.isInert]

theorem isInert_of_isGap (h : m.isGap = true) : m.isInert = true := by
  by_cases hrole : m.role = .code
  · exact isInert_iff.2 (.inr (by simpa [Marked.isGap, hrole] using h))
  · exact isInert_iff.2 (.inl hrole)

theorem closerOf?_of_isBlank (h : isBlank c = true) :
    closerOf? c = none ∧ isCloser c = false := by
  constructor
  · cases hopen : closerOf? c with
    | none => rfl
    | some closer =>
      unfold closerOf? at hopen
      split at hopen <;> first | cases h | cases hopen
  · cases hclose : isCloser c with
    | false => rfl
    | true =>
      simp only [isCloser, Bool.or_eq_true, beq_iff_eq] at hclose
      rcases hclose with (rfl | rfl) | rfl <;> cases h

/-! ## Blocks -/

/-- `enclosed?` with the marks of what it finds. -/
def markedEnclosed? : List Char → List Marked → Option (List Marked × List Marked)
  | _, [] => none
  | pending, m :: ms =>
    match nest? pending m with
    | none => none
    | some [] => some ([], ms)
    | some (due :: outer) =>
      (markedEnclosed? (due :: outer) ms).map fun (inner, after) => (m :: inner, after)

theorem enclosed?_eq_marked (pending : List Char) (ms : List Marked) :
    enclosed? pending ms = (markedEnclosed? pending ms).map (Prod.map unmark unmark) := by
  induction ms generalizing pending with
  | nil => rfl
  | cons m ms ih =>
    rw [enclosed?, markedEnclosed?]
    cases nest? pending m with
    | none => rfl
    | some due =>
      cases due with
      | nil => rfl
      | cons due outer =>
        simp only [ih, Option.map_map]
        rfl

theorem nest?_of_isInert (h : m.isInert = true) (due : Char) (outer : List Char) :
    nest? (due :: outer) m = some (due :: outer) := by
  rcases isInert_iff.1 h with hrole | hblank
  · simp [nest?, hrole]
  · obtain ⟨hopen, hclose⟩ := closerOf?_of_isBlank hblank
    simp [nest?, hopen, hclose]

/-- The last closer that is due stands in the code. -/
theorem isCloser_of_nest? (h : nest? (due :: outer) m = some []) :
    m.role = .code ∧ isCloser m.char = true := by
  unfold nest? at h
  split at h
  · cases h
  · rename_i hrole
    refine ⟨by simpa using hrole, ?_⟩
    cases hopen : closerOf? m.char with
    | some closer =>
      rw [hopen] at h
      cases h
    | none =>
      rw [hopen] at h
      simp only at h
      split at h
      · cases h
      · rename_i hcloser
        simpa using hcloser

/-- What is found ends right before a closing bracket of the code. -/
theorem eq_append_of_markedEnclosed?
    (h : markedEnclosed? (due :: outer) ms = some (inner, after)) :
    ∃ c, ms = inner ++ ⟨.code, c⟩ :: after ∧ isCloser c = true := by
  induction ms generalizing due outer inner with
  | nil => cases h
  | cons m ms ih =>
    rw [markedEnclosed?] at h
    split at h
    · cases h
    · rename_i hnest
      obtain ⟨rfl, rfl⟩ := Prod.mk.inj (Option.some.inj h)
      obtain ⟨hrole, hcloser⟩ := isCloser_of_nest? hnest
      exact ⟨m.char, by rw [← hrole]; rfl, hcloser⟩
    · obtain ⟨⟨inner', after'⟩, hrest, hpair⟩ := map_eq_some_iff.1 h
      obtain ⟨rfl, rfl⟩ := Prod.mk.inj hpair
      obtain ⟨c, rfl, hc⟩ := ih hrest
      exact ⟨c, rfl, hc⟩

theorem isGap_of_isCloser (h : isCloser c = true) : Marked.isGap ⟨.code, c⟩ = false := by
  simp only [isCloser, Bool.or_eq_true, beq_iff_eq] at h
  rcases h with (rfl | rfl) | rfl <;> rfl

/-- Put a mark in front of what is enclosed. -/
def consInner (m : Marked) : List Marked × List Marked → List Marked × List Marked
  | (inner, after) => (m :: inner, after)

theorem markedEnclosed?_cons (h : m.isInert = true) (ms : List Marked) :
    markedEnclosed? (due :: outer) (m :: ms)
      = (markedEnclosed? (due :: outer) ms).map (consInner m) := by
  rw [markedEnclosed?, nest?_of_isInert h]
  rfl

theorem markedEnclosed?_spaced (due : Char) (outer : List Char) (ms : List Marked) :
    markedEnclosed? (due :: outer) (spaced ms)
      = (markedEnclosed? (due :: outer) ms).map (Prod.map spaced spaced) := by
  induction ms generalizing due outer with
  | nil => rfl
  | cons m ms ih =>
    cases hgap : m.isGap with
    | false =>
      rw [spaced_cons hgap, markedEnclosed?, markedEnclosed?]
      cases nest? (due :: outer) m with
      | none => rfl
      | some pending =>
        cases pending with
        | nil => rfl
        | cons due outer =>
          simp only [ih, Option.map_map]
          refine congrArg (Option.map · _) (funext fun found => ?_)
          exact Prod.ext (spaced_cons hgap _).symm rfl
    | true =>
      rw [markedEnclosed?_cons (isInert_of_isGap hgap), spaced_cons_of_isGap hgap]
      cases hfound : markedEnclosed? (due :: outer) ms with
      | none =>
        split
        · rw [ih, hfound]
          rfl
        · rw [markedEnclosed?_cons rfl, ih, hfound]
          rfl
      | some found =>
        obtain ⟨inner, after⟩ := found
        obtain ⟨c, hms, hcloser⟩ := eq_append_of_markedEnclosed? hfound
        have hhead : inner.head?.any Marked.isGap = ms.head?.any Marked.isGap := by
          subst hms
          cases inner with
          | nil => exact (isGap_of_isCloser hcloser).symm
          | cons m inner => rfl
        have hspaced := spaced_cons_of_isGap hgap inner
        rw [hhead] at hspaced
        split
        · rename_i hnext
          rw [if_pos hnext] at hspaced
          rw [ih, hfound, map_some, map_some, consInner, map_some, Prod.map_apply,
            Prod.map_apply, hspaced]
        · rename_i hnext
          rw [if_neg hnext] at hspaced
          rw [markedEnclosed?_cons rfl, ih, hfound, map_some, map_some, map_some,
            consInner, map_some, Prod.map_apply, Prod.map_apply, consInner, hspaced]

/-- Inert characters behind a text close nothing. -/
theorem markedEnclosed?_append_inert (h : ∀ m ∈ ys, m.isInert = true) (due : Char)
    (outer : List Char) (xs : List Marked) :
    (markedEnclosed? (due :: outer) (xs ++ ys)).map Prod.fst
      = (markedEnclosed? (due :: outer) xs).map Prod.fst := by
  induction xs generalizing due outer with
  | nil =>
    induction ys with
    | nil => rfl
    | cons m ys ih =>
      rw [forall_mem_cons] at h
      have hrest : markedEnclosed? (due :: outer) ys = none := map_eq_none_iff.1 (ih h.2)
      rw [nil_append, markedEnclosed?_cons h.1, hrest]
      rfl
  | cons m xs ih =>
    rw [cons_append, markedEnclosed?, markedEnclosed?]
    cases nest? (due :: outer) m with
    | none => rfl
    | some pending =>
      cases pending with
      | nil => rfl
      | cons due outer =>
        have hrest := congrArg (Option.map (List.cons m)) (ih due outer)
        simp only [Option.map_map] at hrest ⊢
        exact hrest

/-- The text between the first brace of a marked text and its partner. -/
def braced? (ms : List Marked) : Option (List Marked) :=
  (markedEnclosed? ['}'] (ms.dropWhile (· ≠ ⟨.code, '{'⟩)).tail).map Prod.fst

theorem inner_openedBlock? (ms : List Marked) :
    (openedBlock? '{' ms).map Block.inner
      = ((markedEnclosed? ['}'] ms).map Prod.fst).map unmark := by
  have hopened : openedBlock? '{' ms
      = (enclosed? ['}'] ms).bind fun found =>
        some ⟨[], '{', found.1, '}', found.2⟩ := rfl
  rw [hopened, enclosed?_eq_marked]
  cases markedEnclosed? ['}'] ms <;> rfl

theorem inner_firstBlock? (ms : List Marked) :
    (firstBlock? '{' ms).map Block.inner = (braced? ms).map unmark := by
  induction ms with
  | nil => rfl
  | cons m ms ih =>
    rw [firstBlock?, braced?]
    split
    · rename_i hbrace
      have hm : m = ⟨.code, '{'⟩ := by rw [← hbrace.1, ← hbrace.2]
      rw [dropWhile_cons_of_neg (by simp [hm]), inner_openedBlock?]
      rfl
    · rename_i hbrace
      have hm : m ≠ ⟨.code, '{'⟩ := by
        rintro rfl
        exact hbrace ⟨rfl, rfl⟩
      rw [dropWhile_cons_of_pos (by simp [hm]), Option.map_map]
      exact ih

theorem Lexed.of_markedEnclosed? (hms : Lexed ms)
    (h : markedEnclosed? (due :: outer) ms = some (inner, after)) : Lexed inner := by
  obtain ⟨c, rfl, hcloser⟩ := eq_append_of_markedEnclosed? h
  have hslash : c ≠ '/' := by
    rintro rfl
    cases hcloser
  exact (hms.split hslash).1

/-- A block that an opening brace stands in front of. -/
theorem inner_openedBlock?_spaced (hms : Lexed ms) :
    (openedBlock? '{' (spaced ms)).map Block.inner
      = ((openedBlock? '{' ms).map Block.inner).map singleSpaced := by
  rw [inner_openedBlock?, inner_openedBlock?, markedEnclosed?_spaced]
  cases hfound : markedEnclosed? ['}'] ms with
  | none => rfl
  | some found =>
    obtain ⟨inner, after⟩ := found
    exact congrArg some (hms.of_markedEnclosed? hfound).singleSpaced_unmark.symm

theorem dropWhile_spaced (hm : m.isGap = false) (ms : List Marked) :
    (spaced ms).dropWhile (· ≠ m) = spaced (ms.dropWhile (· ≠ m)) := by
  induction ms with
  | nil => rfl
  | cons x ms ih =>
    cases hgap : x.isGap with
    | true =>
      have hx : x ≠ m := by
        rintro rfl
        rw [hm] at hgap
        cases hgap
      have hspace : (⟨.code, ' '⟩ : Marked) ≠ m := by
        rintro rfl
        cases hm
      rw [dropWhile_cons_of_pos (by simpa using hx), ← ih, spaced_cons_of_isGap hgap]
      split
      · rfl
      · rw [dropWhile_cons_of_pos (by simpa using hspace)]
    | false =>
      rw [spaced_cons hgap]
      by_cases hx : x = m
      · rw [dropWhile_cons_of_neg (by simpa using hx),
          dropWhile_cons_of_neg (by simpa using hx), spaced_cons hgap]
      · rw [dropWhile_cons_of_pos (by simpa using hx),
          dropWhile_cons_of_pos (by simpa using hx), ih]

theorem eq_append_of_dropWhile_ne {x y : Marked} {xs : List Marked}
    (h : xs.dropWhile (· ≠ x) = y :: ys) :
    y = x ∧ ∃ before, xs = before ++ x :: ys := by
  have hne : xs.dropWhile (· ≠ x) ≠ [] := by
    rw [h]
    exact cons_ne_nil y ys
  have hhead := head_dropWhile_not (· ≠ x) hne
  simp only [h, head_cons, decide_eq_false_iff_not, not_not] at hhead
  subst hhead
  refine ⟨rfl, xs.takeWhile (· ≠ y), ?_⟩
  rw [← h, takeWhile_append_dropWhile]

/-- The block that the first brace opens. -/
theorem inner_block?_singleSpaced (cs : List Char) :
    (block? '{' (singleSpaced cs)).map Block.inner
      = ((block? '{' cs).map Block.inner).map singleSpaced := by
  rw [block?, block?, inner_firstBlock?, inner_firstBlock?, marks_singleSpaced, braced?,
    braced?, dropWhile_spaced rfl]
  cases hdrop : (marks cs).dropWhile (· ≠ ⟨.code, '{'⟩) with
  | nil => rfl
  | cons m ms =>
    obtain ⟨rfl, before, hmarks⟩ := eq_append_of_dropWhile_ne hdrop
    have hlexed : Lexed ms := ((hmarks ▸ lexed_marks cs).split (by decide)).2
    rw [spaced_cons rfl, tail_cons, tail_cons, ← inner_openedBlock?, ← inner_openedBlock?]
    exact inner_openedBlock?_spaced hlexed

/-! ## Blanks at the ends of a block's text -/

theorem marks_trimStart (cs : List Char) :
    ∃ blanks, marks cs = blanks ++ marks (trimStart cs) ∧ ∀ m ∈ blanks, m.role = .code
      ∧ isBlank m.char = true := by
  induction cs with
  | nil => exact ⟨[], rfl, by simp⟩
  | cons c cs ih =>
    cases hblank : isBlank c with
    | false => exact ⟨[], by rw [trimStart_cons hblank, nil_append], by simp⟩
    | true =>
      obtain ⟨hquote, hslash⟩ := isQuote_of_isBlank hblank
      obtain ⟨blanks, hmarks, hblanks⟩ := ih
      refine ⟨⟨.code, c⟩ :: blanks, ?_, forall_mem_cons.2 ⟨⟨rfl, hblank⟩, hblanks⟩⟩
      rw [trimStart, dropWhile_cons_of_pos hblank, marks_cons hquote hslash, hmarks]
      rfl

theorem marks_trimEnd (cs : List Char) :
    ∃ blanks, marks cs = marks (trimEnd cs) ++ blanks
      ∧ ∀ m ∈ blanks, isBlank m.char = true := by
  obtain ⟨blanks, hcs, hblank⟩ := exists_trimEnd_append cs
  obtain ⟨ms, hmarks⟩ := marks_append_blanks (trimEnd cs) hblank
  rw [← hcs] at hmarks
  refine ⟨ms, hmarks, fun m hm => hblank m.char ?_⟩
  have hchars : trimEnd cs ++ unmark ms = trimEnd cs ++ blanks := by
    rw [← hcs, ← unmark_marks (trimEnd cs), ← unmark_append, ← hmarks, unmark_marks]
  rw [← append_cancel_left hchars]
  exact List.mem_map_of_mem hm

theorem dropWhile_brace (h : ∀ m ∈ ms, m.isInert = true) :
    ms.dropWhile (· ≠ ⟨.code, '{'⟩) = [] := by
  rw [dropWhile_eq_nil_iff]
  intro m hm
  have hinert := h m hm
  simp only [ne_eq, decide_eq_true_eq]
  rintro rfl
  cases hinert

theorem braced?_append_left (h : ∀ m ∈ blanks, m.isInert = true) (ms : List Marked) :
    braced? (blanks ++ ms) = braced? ms := by
  rw [braced?, dropWhile_append, dropWhile_brace h]
  rfl

theorem braced?_append_right (h : ∀ m ∈ blanks, m.isInert = true) (ms : List Marked) :
    braced? (ms ++ blanks) = braced? ms := by
  rw [braced?, braced?, dropWhile_append]
  cases hms : ms.dropWhile (· ≠ ⟨.code, '{'⟩) with
  | nil =>
    rw [dropWhile_brace h]
    rfl
  | cons m rest => exact markedEnclosed?_append_inert h '}' [] rest

theorem inner_block?_trim (cs : List Char) :
    (block? '{' (trim cs)).map Block.inner = (block? '{' cs).map Block.inner := by
  obtain ⟨before, hbefore, hblank⟩ := marks_trimStart cs
  obtain ⟨after, hafter, hblank'⟩ := marks_trimEnd (trimStart cs)
  have hbraced : braced? (marks cs) = braced? (marks (trim cs)) := by
    rw [hbefore, braced?_append_left fun m hm => isInert_iff.2 (.inr (hblank m hm).2),
      hafter, braced?_append_right fun m hm =>
      isInert_iff.2 (.inr (hblank' m hm)), trim]
  rw [block?, block?, inner_firstBlock?, inner_firstBlock?, hbraced]

end Source

end TypedContent

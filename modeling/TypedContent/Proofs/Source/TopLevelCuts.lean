import TypedContent.Proofs.Source.Lexemes

/-!
# Where a text is cut

A text is cut at the separators that stand in the code at nesting depth
zero, and nowhere else. To say so, the cut text is kept with its cuts
(`Cutting`): the segments with the separators between them make up the text
again, and which separators these are is told by the lexemes in front of
them (`cutsAt_cutFrom`, `depthThrough_marksOf`).

A part is read in the same way on its own as in its place, and the blanks
that it has lost do not matter, so it has no cut inside
(`segments_trim_of_uncut`). Separators that are blank or a slash are no
exception: a comment that starts at a slash would have hidden the separator
behind it.
-/

namespace TypedContent

namespace Source

open List Text

variable {depth : Nat} {afterEquals : Bool} {sep : Char} {before cs : List Char}
  {ms : List Marked}

/-! ## Cut texts -/

/-- A text that is cut: its first segment, and the others, each behind the
separator that it follows. -/
structure Cutting where
  first : List Char
  rest : List (Char × List Char)
deriving DecidableEq, Repr

namespace Cutting

variable {c : Char} {first : List Char} {rest : List (Char × List Char)}

def text (k : Cutting) : List Char :=
  k.first ++ k.rest.flatMap fun (sep, segment) => sep :: segment

def segments (k : Cutting) : List (List Char) :=
  k.first :: k.rest.map Prod.snd

/-- The text is cut at `sep`, in front of which stands `before`. -/
def CutsAt (k : Cutting) (before : List Char) (sep : Char) : Prop :=
  ∃ left segment right, k.rest = left ++ (sep, segment) :: right
    ∧ before = text ⟨k.first, left⟩

theorem cutsAt_cons_first :
    CutsAt ⟨c :: first, rest⟩ before sep
      ↔ ∃ before', before = c :: before' ∧ CutsAt ⟨first, rest⟩ before' sep := by
  constructor
  · rintro ⟨left, segment, right, hrest, rfl⟩
    exact ⟨_, rfl, left, segment, right, hrest, rfl⟩
  · rintro ⟨_, rfl, left, segment, right, hrest, rfl⟩
    exact ⟨left, segment, right, hrest, rfl⟩

theorem cutsAt_cons_cut :
    CutsAt ⟨[], (c, first) :: rest⟩ before sep
      ↔ (before = [] ∧ sep = c) ∨ ∃ before',
        before = c :: before' ∧ CutsAt ⟨first, rest⟩ before' sep := by
  constructor
  · rintro ⟨left, segment, right, hrest, rfl⟩
    cases left with
    | nil =>
      obtain ⟨rfl, -⟩ := Prod.mk.inj (List.cons.inj hrest).1
      exact .inl ⟨rfl, rfl⟩
    | cons entry left =>
      obtain ⟨rfl, htail⟩ := List.cons.inj hrest
      exact .inr ⟨text ⟨first, left⟩, rfl, left, segment, right, htail, rfl⟩
  · rintro (⟨rfl, rfl⟩ | ⟨_, rfl, left, segment, right, hrest, rfl⟩)
    · exact ⟨[], first, rest, rfl, rfl⟩
    · exact ⟨(c, first) :: left, segment, right, congrArg (List.cons _) hrest, rfl⟩

end Cutting

/-- `segmentsFrom` with the separators between the segments. -/
def cutFrom (separators : List Char) : Nat → Bool → List Marked → Cutting
  | _, _, [] => ⟨[], []⟩
  | depth, afterEquals, m :: ms =>
    if isCut separators depth m then
      let k := cutFrom separators depth (m.char == '=') ms
      ⟨[], (m.char, k.first) :: k.rest⟩
    else
      let k := cutFrom separators (depthAfter depth afterEquals m) (m.char == '=') ms
      ⟨m.char :: k.first, k.rest⟩

section Cuts

variable {separators : List Char}

theorem text_cutFrom (depth : Nat) (afterEquals : Bool) (ms : List Marked) :
    (cutFrom separators depth afterEquals ms).text = unmark ms := by
  induction ms generalizing depth afterEquals with
  | nil => rfl
  | cons m ms ih =>
    rw [cutFrom]
    split <;> exact congrArg (List.cons m.char) (ih _ _)

theorem segments_cutFrom (depth : Nat) (afterEquals : Bool) (ms : List Marked) :
    (cutFrom separators depth afterEquals ms).segments
      = segmentsFrom separators depth afterEquals ms := by
  induction ms generalizing depth afterEquals with
  | nil => rfl
  | cons m ms ih =>
    rw [cutFrom, segmentsFrom]
    split <;> rw [← ih] <;> rfl

/-- A text is cut where a separator meets depth zero. -/
theorem cutsAt_cutFrom :
    (cutFrom separators depth afterEquals ms).CutsAt before sep
      ↔ ∃ xs ys, ms = xs ++ ⟨.code, sep⟩ :: ys ∧ unmark xs = before
        ∧ isCut separators (depthThrough depth afterEquals xs) ⟨.code, sep⟩ = true := by
  induction ms generalizing depth afterEquals before with
  | nil => simp [cutFrom, Cutting.CutsAt]
  | cons m ms ih =>
    -- the first character is the cut, or the cut stands behind it
    have hsplit : (∃ xs ys, m :: ms = xs ++ ⟨.code, sep⟩ :: ys ∧ unmark xs = before
          ∧ isCut separators (depthThrough depth afterEquals xs) ⟨.code, sep⟩ = true)
        ↔ (before = [] ∧ m = ⟨.code, sep⟩ ∧ isCut separators depth m = true)
          ∨ ∃ before', before = m.char :: before'
            ∧ (cutFrom separators (depthAfter depth afterEquals m)
              (m.char == '=') ms).CutsAt before' sep := by
      constructor
      · rintro ⟨xs, ys, hms, rfl, hcut⟩
        cases xs with
        | nil =>
          obtain ⟨rfl, rfl⟩ := List.cons.inj hms
          exact .inl ⟨rfl, rfl, hcut⟩
        | cons x xs =>
          obtain ⟨rfl, htail⟩ := List.cons.inj hms
          exact .inr ⟨unmark xs, rfl, ih.2 ⟨xs, ys, htail, rfl, hcut⟩⟩
      · rintro (⟨rfl, rfl, hcut⟩ | ⟨before', rfl, hcuts⟩)
        · exact ⟨[], ms, rfl, rfl, hcut⟩
        · obtain ⟨xs, ys, rfl, rfl, hcut⟩ := ih.1 hcuts
          exact ⟨m :: xs, ys, rfl, rfl, hcut⟩
    rw [hsplit, cutFrom]
    split
    · rename_i hcut
      have hrole : m = ⟨.code, m.char⟩ := by
        simp only [isCut, Bool.and_eq_true, beq_iff_eq] at hcut
        rw [← hcut.1.1.1.1]
      rw [Cutting.cutsAt_cons_cut, depthAfter_of_isCut hcut]
      refine or_congr (and_congr_right fun _ =>
        ⟨?_, fun h => (congrArg Marked.char h.1).symm⟩) Iff.rfl
      rintro rfl
      exact ⟨hrole, hcut⟩
    · rename_i hcut
      rw [Cutting.cutsAt_cons_first]
      exact (or_iff_right fun h => hcut h.2.2).symm

end Cuts

/-! ## Depth -/

/-- The nesting depth behind lexemes: brackets and angle brackets count,
except for the tip of an arrow, and a closer that nothing is open for is
ignored. `afterEquals` tells that an equals sign stands in front. -/
def nestingFrom : Nat → Bool → List Lexeme → Nat
  | depth, _, [] => depth
  | depth, afterEquals, .code c :: ts =>
    if opensNesting c then nestingFrom (depth + 1) false ts
    else if closesNesting c && !(c == '>' && afterEquals) then
      nestingFrom (depth - 1) false ts
    else nestingFrom depth (c == '=') ts
  | depth, _, _ :: ts => nestingFrom depth false ts

def nesting (ts : List Lexeme) : Nat :=
  nestingFrom 0 false ts

theorem depthThrough_append (depth : Nat) (afterEquals : Bool) (xs ys : List Marked) :
    depthThrough depth afterEquals (xs ++ ys)
      = depthThrough (depthThrough depth afterEquals xs)
        (endsInEquals afterEquals xs) ys := by
  induction xs generalizing depth afterEquals with
  | nil => rfl
  | cons x xs ih => exact ih _ _

theorem depthThrough_of_inert (h : ∀ m ∈ ms, m.isInert = true) (depth : Nat)
    (afterEquals : Bool) :
    depthThrough depth afterEquals ms = depth := by
  induction ms generalizing afterEquals with
  | nil => rfl
  | cons m ms ih =>
    rw [forall_mem_cons] at h
    rw [depthThrough, depthAfter_of_isInert h.1]
    exact ih h.2 _

/-- Counting on the marks and on the lexemes is the same, as no literal or
comment ends in an equals sign. -/
theorem depthThrough_marksOf {ts : List Lexeme} (hne : ∀ t ∈ ts, t.text ≠ [])
    (hlast : ∀ t ∈ ts, t.role ≠ .code → t.text.getLast? ≠ some '=') (depth : Nat)
    (afterEquals : Bool) :
    depthThrough depth afterEquals (marksOf ts) = nestingFrom depth afterEquals ts := by
  induction ts generalizing depth afterEquals with
  | nil => rfl
  | cons t ts ih =>
    rw [forall_mem_cons] at hne hlast
    have hrest := ih hne.2 hlast.2
    -- a literal or a comment leaves the depth alone and is not taken for
    -- the start of an arrow
    have hpass (hrole : t.role ≠ .code) :
        depthThrough depth afterEquals (marksOf (t :: ts))
          = nestingFrom depth false ts := by
      have hinert : ∀ m ∈ t.marks, m.isInert = true := by
        intro m hm
        obtain ⟨c, -, rfl⟩ := mem_map.1 hm
        exact isInert_iff.2 (.inl hrole)
      obtain ⟨front, c, htext⟩ := eq_nil_or_concat t.text |>.resolve_left hne.1
      have hends : endsInEquals afterEquals t.marks = false := by
        rw [Lexeme.marks, htext, concat_eq_append, map_append, map_singleton,
          endsInEquals_append, beq_eq_false_iff_ne]
        rintro rfl
        exact hlast.1 hrole (by rw [htext, concat_eq_append, getLast?_concat])
      rw [marksOf_cons, depthThrough_append, depthThrough_of_inert hinert, hends, hrest]
    cases t with
    | literal text => exact hpass (by simp [Lexeme.role])
    | comment text => exact hpass (by simp [Lexeme.role])
    | code c =>
      show depthThrough (depthAfter depth afterEquals ⟨.code, c⟩) (c == '=')
        (marksOf ts) = _
      have hequals (h : opensNesting c = true ∨ closesNesting c = true) :
          (c == '=') = false := by
        rw [beq_eq_false_iff_ne]
        rintro rfl
        rcases h with h | h <;> cases h
      rw [hrest, nestingFrom, depthAfter, if_neg (by simp)]
      split
      · rename_i hopens
        rw [hequals (.inl hopens)]
      · split
        · rename_i hcloses
          rw [hequals (.inr (Bool.and_eq_true_iff.1 hcloses).1)]
        · rfl

/-- The character `c` stands behind `before`, in the code and at nesting
depth zero. -/
def IsTopLevel (cs before : List Char) (c : Char) : Prop :=
  ∃ scanned later, lexemes cs = scanned ++ .code c :: later ∧ textOf scanned = before
    ∧ nesting scanned = 0

/-! ## Parts on their own -/

section Uncut

variable {separators : List Char}

/-- At depth zero nothing asks for the sign before it. -/
theorem markedSegments_zero (afterEquals : Bool) (ms : List Marked) :
    markedSegments separators 0 afterEquals ms
      = markedSegments separators 0 false ms := by
  cases ms with
  | nil => rfl
  | cons m ms =>
    have hdepth : depthAfter 0 afterEquals m = depthAfter 0 false m := by
      unfold depthAfter
      split
      · rfl
      · split
        · rfl
        · simp
    rw [markedSegments, markedSegments, hdepth]

theorem markedSegments_append {xs ys : List Marked}
    (h : markedSegments separators depth afterEquals (xs ++ ys) = [xs ++ ys]) :
    markedSegments separators depth afterEquals xs = [xs]
      ∧ markedSegments separators (depthThrough depth afterEquals xs)
        (endsInEquals afterEquals xs) ys = [ys] := by
  induction xs generalizing depth afterEquals with
  | nil => exact ⟨rfl, h⟩
  | cons x xs ih =>
    rw [cons_append, markedSegments] at h
    rw [markedSegments]
    split at h
    · cases (List.cons.inj h).1
    · rename_i hcut
      obtain ⟨first, rest, hsegments⟩ :=
        exists_markedSegments separators (depthAfter depth afterEquals x)
          (x.char == '=') (xs ++ ys)
      rw [hsegments] at h
      obtain ⟨hfirst, rfl⟩ := List.cons.inj h
      rw [(List.cons.inj hfirst).2] at hsegments
      obtain ⟨hxs, hys⟩ := ih hsegments
      rw [if_neg hcut, hxs]
      exact ⟨rfl, hys⟩

/-- Either nothing is cut, or the first segment is uncut and ends right
before a separator at depth zero. -/
theorem markedSegments_first (depth : Nat) (afterEquals : Bool) (ms : List Marked) :
    markedSegments separators depth afterEquals ms = [ms]
      ∨ ∃ first c rest afterEquals', ms = first ++ ⟨.code, c⟩ :: rest
        ∧ markedSegments separators depth afterEquals first = [first]
        ∧ markedSegments separators depth afterEquals ms
          = first :: markedSegments separators 0 afterEquals' rest := by
  induction ms generalizing depth afterEquals with
  | nil => exact .inl rfl
  | cons m ms ih =>
    by_cases hcut : isCut separators depth m = true
    · have hshape := hcut
      simp only [isCut, Bool.and_eq_true, beq_iff_eq] at hshape
      obtain ⟨role, c⟩ := m
      obtain rfl : role = .code := hshape.1.1.1.1
      obtain rfl : depth = 0 := hshape.1.1.1.2
      exact .inr ⟨[], c, ms, c == '=', rfl, rfl, by rw [markedSegments, if_pos hcut]⟩
    · have hcons (xs : List Marked) :
          markedSegments separators depth afterEquals (m :: xs)
          = (markedSegments separators (depthAfter depth afterEquals m)
            (m.char == '=') xs).modifyHead (m :: ·) := by
        rw [markedSegments, if_neg hcut]
      rcases ih (depthAfter depth afterEquals m) (m.char == '=') with hone
        | ⟨first, c, rest, e, rfl, hfirst, hrest⟩
      · exact .inl (by rw [hcons, hone]; rfl)
      · exact .inr ⟨m :: first, c, rest, e, rfl,
          by rw [hcons, hfirst]; rfl, by rw [hcons, hrest]; rfl⟩

/-- A segment is marked on its own as in its place, and it has no cut
inside. -/
theorem uncut_of_mem_markedSegments {segment : List Marked} (hms : Lexed ms)
    (h : segment ∈ markedSegments separators 0 false ms) :
    Lexed segment ∧ markedSegments separators 0 false segment = [segment] := by
  induction hlength : ms.length using Nat.strongRecOn generalizing ms with
  | ind n ih =>
    rcases @markedSegments_first separators 0 false ms with hone
      | ⟨first, c, rest, e, rfl, hfirst, hcons⟩
    · rw [hone, mem_singleton] at h
      exact h ▸ ⟨hms, hone⟩
    · obtain ⟨hlexed, hrest⟩ := hms.cut
      rw [hcons, mem_cons] at h
      rcases h with rfl | h
      · exact ⟨hlexed, hfirst⟩
      · rw [markedSegments_zero] at h
        refine ih rest.length ?_ hrest h rfl
        rw [← hlength, length_append, length_cons]
        omega

/-- A text without cuts has none when the blanks at its ends are gone. -/
theorem segments_trim_of_uncut
    (h : markedSegments separators 0 false (marks cs) = [marks cs]) :
    segments separators (trim cs) = [trim cs] := by
  obtain ⟨front, hfront, hblank⟩ := marks_trimStart cs
  obtain ⟨back, hback, -⟩ := marks_trimEnd (trimStart cs)
  have hinert : ∀ m ∈ front, m.isInert = true :=
    fun m hm => isInert_iff.2 (.inr (hblank m hm).2)
  rw [hfront] at h
  have hstart := (markedSegments_append h).2
  rw [depthThrough_of_inert hinert, markedSegments_zero, hback] at hstart
  have htrim : markedSegments separators 0 false (marks (trim cs))
      = [marks (trim cs)] := (markedSegments_append hstart).1
  rw [segments, segmentsFrom_eq_marked, htrim, map_singleton, unmark_marks]

theorem parts_of_mem_parts {part : List Char} (h : part ∈ parts separators cs) :
    parts separators part = [part] := by
  obtain ⟨hmem, hne⟩ := mem_filter.1 h
  obtain ⟨segment, hsegment, rfl⟩ := mem_map.1 hmem
  rw [segments, segmentsFrom_eq_marked] at hsegment
  obtain ⟨ms, hms, rfl⟩ := mem_map.1 hsegment
  obtain ⟨hlexed, huncut⟩ := uncut_of_mem_markedSegments (lexed_marks cs) hms
  have hsegments : segments separators (trim (unmark ms)) = [trim (unmark ms)] :=
    segments_trim_of_uncut (by rw [hlexed, huncut])
  rw [parts, hsegments, map_singleton, trim_trim, filter_singleton, hne]
  rfl

end Uncut

/-! ## The cut text -/

/-- The cuts of a text are the separators that stand in its code at nesting
depth zero. -/
theorem cutsAt_iff_isTopLevel {separators : List Char}
    (hsep : ∀ c ∈ separators, opensNesting c = false ∧ closesNesting c = false) :
    (cutFrom separators 0 false (marks cs)).CutsAt before sep
      ↔ sep ∈ separators ∧ IsTopLevel cs before sep := by
  have hdepth {scanned later : List Lexeme}
      (hlexemes : lexemes cs = scanned ++ .code sep :: later) :
      depthThrough 0 false (marksOf scanned) = nesting scanned := by
    have hlegible : Legible (scanned ++ .code sep :: later) :=
      hlexemes ▸ legible_lexemes cs
    exact depthThrough_marksOf hlegible.of_append_left.text_ne_nil
      (hlegible.getLast?_ne (cons_ne_nil _ _)) 0 false
  rw [cutsAt_cutFrom]
  constructor
  · rintro ⟨xs, ys, hmarks, rfl, hcut⟩
    obtain ⟨scanned, later, hlexemes, rfl, rfl⟩ := marks_eq_append_iff.1 hmarks
    simp only [isCut, Bool.and_eq_true, beq_iff_eq, contains_iff_mem,
      hdepth hlexemes] at hcut
    exact ⟨hcut.1.1.2, scanned, later, hlexemes,
      (unmark_marksOf scanned).symm, hcut.1.1.1.2⟩
  · rintro ⟨hmem, scanned, later, hlexemes, rfl, hzero⟩
    refine ⟨marksOf scanned, marksOf later,
      marks_eq_append_iff.2 ⟨scanned, later, hlexemes, rfl, rfl⟩,
      unmark_marksOf scanned, ?_⟩
    simp [isCut, hdepth hlexemes, hzero, hmem, hsep sep hmem]

/-- **Parts are cut at every top-level separator and nowhere else.** For
separators that are no brackets, a text is made up of segments with a
separator between neighbours, and the parts are the trimmed segments without
the empty ones. The separators between the segments are exactly those that
stand in the code at nesting depth zero. A part that is cut again is left
whole. -/
theorem parts_cut_at_top_level {separators : List Char}
    (hsep : ∀ c ∈ separators, opensNesting c = false ∧ closesNesting c = false)
    (cs : List Char) :
    ∃ k : Cutting, k.text = cs ∧ parts separators cs
      = (k.segments.map trim).filter (· ≠ [])
      ∧ (∀ before sep, k.CutsAt before sep ↔ sep ∈ separators ∧ IsTopLevel cs before sep)
      ∧ ∀ part ∈ parts separators cs, parts separators part = [part] := by
  refine ⟨cutFrom separators 0 false (marks cs), ?_, ?_,
    fun _ _ => cutsAt_iff_isTopLevel hsep,
    fun _ => parts_of_mem_parts⟩
  · rw [text_cutFrom, unmark_marks]
  · rw [segments_cutFrom, parts, segments]

/-- An arrow, a literal and a block with separators inside, and separators
that are blank or a slash. -/
theorem parts_cut_at_top_level_arrow :
    (∀ c ∈ [';', '/', ' '], opensNesting c = false ∧ closesNesting c = false)
      ∧ ∃ k : Cutting, k.text = "f: (x) => A<1 ; 2>;g/'a;b' \x7d\x7bc;d".toList
        ∧ parts [';', '/', ' '] "f: (x) => A<1 ; 2>;g/'a;b' \x7d\x7bc;d".toList
          = (k.segments.map trim).filter (· ≠ [])
        ∧ (∀ before sep, k.CutsAt before sep
          ↔ sep ∈ [';', '/', ' ']
            ∧ IsTopLevel "f: (x) => A<1 ; 2>;g/'a;b' \x7d\x7bc;d".toList before sep)
        ∧ ∀ part ∈ parts [';', '/', ' '] "f: (x) => A<1 ; 2>;g/'a;b' \x7d\x7bc;d".toList,
          parts [';', '/', ' '] part = [part] := by
  have hsep : ∀ c ∈ [';', '/', ' '],
      opensNesting c = false ∧ closesNesting c = false := by decide
  exact ⟨hsep, parts_cut_at_top_level hsep _⟩

end Source

end TypedContent

import TypedContent.Source.Block
import TypedContent.Source.Parts

/-!
# Nesting

Two scans look at brackets, and they see different things. The search for
the end of a block keeps the brackets that are due and knows three kinds of
them; the cut into segments only counts, and counts angle brackets too. Here
both are followed through a stretch of text: which closers are due behind it
(`nestAll?`), and how deep the count is (`depthThrough`).

A count that starts higher runs in parallel to one that starts lower
(`depthThrough_of_level?`), as long as no closer meets a count of zero. One
that does is lost on the lower count only, and from there on the two are the
same (`depthThrough_of_level?_none`). `level?` tells the two cases apart.
-/

namespace TypedContent

open List

namespace Source

variable {afterEquals : Bool} {depth depth' : Nat} {opener closer : Char}
  {pending after separators : List Char} {m : Marked} {ms : List Marked}

/-! ## Brackets -/

def isBracket (c : Char) : Bool :=
  (closerOf? c).isSome || isCloser c

theorem closerOf?_cases (h : closerOf? opener = some closer) :
    (opener = '{' ∧ closer = '}') ∨ (opener = '[' ∧ closer = ']')
      ∨ (opener = '(' ∧ closer = ')') := by
  unfold closerOf? at h
  split at h
  · exact .inl ⟨rfl, (Option.some.inj h).symm⟩
  · exact .inr (.inl ⟨rfl, (Option.some.inj h).symm⟩)
  · exact .inr (.inr ⟨rfl, (Option.some.inj h).symm⟩)
  · cases h

theorem isCloser_of_closerOf? (h : closerOf? opener = some closer) :
    isCloser closer = true := by
  rcases closerOf?_cases h with ⟨-, rfl⟩ | ⟨-, rfl⟩ | ⟨-, rfl⟩ <;> rfl

theorem closerOf?_of_isCloser {c : Char} (h : isCloser c = true) :
    closerOf? c = none := by
  simp only [isCloser, Bool.or_eq_true, beq_iff_eq] at h
  rcases h with (rfl | rfl) | rfl <;> rfl

theorem nest?_closer (h : isCloser closer = true) (outer : List Char) :
    nest? (closer :: outer) ⟨.code, closer⟩ = some outer := by
  simp [nest?, closerOf?_of_isCloser h, h]

theorem nest?_of_not_bracket (h : m.role ≠ .code ∨ isBracket m.char = false)
    (pending : List Char) :
    nest? pending m = some pending := by
  unfold nest?
  rcases h with hrole | hbracket
  · rw [if_pos hrole]
  · simp only [isBracket, Bool.or_eq_false_iff, Option.isSome_eq_false_iff,
      Option.isNone_iff_eq_none] at hbracket
    split
    · rfl
    · cases pending <;> simp [hbracket]

/-! ## What is due -/

/-- The closers still due behind a text. -/
def nestAll? (pending : List Char) (ms : List Marked) : Option (List Char) :=
  ms.foldlM nest? pending

theorem nestAll?_cons {due : List Char} (h : nestAll? pending (m :: ms) = some due) :
    ∃ after, nest? pending m = some after ∧ nestAll? after ms = some due := by
  rw [nestAll?, foldlM_cons] at h
  exact Option.bind_eq_some_iff.1 h

/-- What was due before the text stays due. -/
theorem nest?_append (h : nest? pending m = some after) (outer : List Char) :
    nest? (pending ++ outer) m = some (after ++ outer) := by
  unfold nest? at h ⊢
  split
  · rename_i hrole
    rw [if_pos hrole] at h
    obtain rfl := Option.some.inj h
    rfl
  · rename_i hrole
    rw [if_neg hrole] at h
    cases hopen : closerOf? m.char with
    | some closer =>
      rw [hopen] at h
      obtain rfl := Option.some.inj h
      rfl
    | none =>
      rw [hopen] at h
      cases pending with
      | nil =>
        simp only at h
        split at h
        · cases h
        · rename_i hcloser
          obtain rfl := Option.some.inj h
          cases outer <;> simp [hcloser]
      | cons due rest =>
        simp only at h
        rw [cons_append]
        simp only
        split at h
        · rename_i hcloser
          obtain rfl := Option.some.inj h
          rw [if_pos hcloser]
          rfl
        · rename_i hcloser
          rw [if_neg hcloser]
          split at h
          · rename_i hdue
            obtain rfl := Option.some.inj h
            rw [if_pos hdue]
          · cases h

theorem nestAll?_append_eq (pending : List Char) (xs ys : List Marked) :
    nestAll? pending (xs ++ ys) = (nestAll? pending xs).bind (nestAll? · ys) :=
  foldlM_append

theorem nestAll?_of_not_bracket
    (h : ∀ m ∈ ms, m.role ≠ .code ∨ isBracket m.char = false) (pending : List Char) :
    nestAll? pending ms = some pending := by
  induction ms with
  | nil => rfl
  | cons m ms ih =>
    rw [forall_mem_cons] at h
    rw [nestAll?, foldlM_cons, nest?_of_not_bracket h.1]
    exact ih h.2

theorem nestAll?_append (h : nestAll? pending ms = some after)
    (outer : List Char) : nestAll? (pending ++ outer) ms = some (after ++ outer) := by
  induction ms generalizing pending with
  | nil =>
    obtain rfl := Option.some.inj h
    rfl
  | cons m ms ih =>
    obtain ⟨middle, hm, hms⟩ := nestAll?_cons h
    rw [nestAll?, foldlM_cons, nest?_append hm outer]
    exact ih hms

/-- A bracket that is closed by its own kind, with nothing but closed
brackets in between. -/
theorem nestAll?_block (hpair : closerOf? opener = some closer)
    (h : nestAll? [] ms = some []) (rest : List Marked) :
    nestAll? [] (⟨.code, opener⟩ :: (ms ++ ⟨.code, closer⟩ :: rest))
      = nestAll? [] rest := by
  have hopen : nest? [] ⟨.code, opener⟩ = some [closer] := by simp [nest?, hpair]
  have hinside : nestAll? [closer] ms = some [closer] := nestAll?_append h [closer]
  have hclose := nest?_closer (isCloser_of_closerOf? hpair) []
  rw [nestAll?, foldlM_cons, hopen, Option.bind_eq_bind, Option.bind_some, ← nestAll?,
    nestAll?_append_eq, hinside, Option.bind_some, nestAll?, foldlM_cons, hclose]
  rfl

/-- Put a text in front of the inside of a block. -/
def extendInner (cs : List Char)
    (found : List Char × List Char) : List Char × List Char :=
  (cs ++ found.1, found.2)

theorem map_extendInner_nil (found : Option (List Char × List Char)) :
    found.map (extendInner []) = found := by
  cases found <;> rfl

theorem map_extendInner_append (xs ys : List Char)
    (found : Option (List Char × List Char)) :
    (found.map (extendInner ys)).map (extendInner xs)
      = found.map (extendInner (xs ++ ys)) := by
  cases found <;> simp [extendInner]

/-- A search for the end of a block passes a text that closes nothing it did
not open. -/
theorem enclosed?_append (h : nestAll? pending ms = some after) (due : Char)
    (outer : List Char) (rest : List Marked) :
    enclosed? (pending ++ due :: outer) (ms ++ rest)
      = (enclosed? (after ++ due :: outer) rest).map (extendInner (unmark ms)) := by
  induction ms generalizing pending with
  | nil =>
    obtain rfl := Option.some.inj h
    exact (map_extendInner_nil _).symm
  | cons m ms ih =>
    obtain ⟨middle, hm, hms⟩ := nestAll?_cons h
    have hnest := nest?_append hm (due :: outer)
    have hstep : enclosed? (pending ++ due :: outer) (m :: (ms ++ rest))
        = (enclosed? (middle ++ due :: outer) (ms ++ rest)).map
          (extendInner [m.char]) := by
      rw [enclosed?, hnest]
      cases middle <;> rfl
    rw [cons_append, hstep, ih hms, map_extendInner_append]
    rfl

theorem enclosed?_eq_none (h : nestAll? pending ms = some after) (due : Char)
    (outer : List Char) :
    enclosed? (pending ++ due :: outer) ms = none := by
  have hend := enclosed?_append h due outer []
  rwa [append_nil, enclosed?] at hend

/-! ## How deep the count is -/

/-- The depth behind a text. -/
def depthThrough : Nat → Bool → List Marked → Nat
  | depth, _, [] => depth
  | depth, afterEquals, m :: ms =>
    depthThrough (depthAfter depth afterEquals m) (m.char == '=') ms

/-- Whether a text, or what stands before it if it is empty, ends in an
equals sign. -/
def endsInEquals : Bool → List Marked → Bool
  | afterEquals, [] => afterEquals
  | _, m :: ms => endsInEquals (m.char == '=') ms

theorem endsInEquals_append (afterEquals : Bool) (xs : List Marked) (m : Marked) :
    endsInEquals afterEquals (xs ++ [m]) = (m.char == '=') := by
  induction xs generalizing afterEquals with
  | nil => rfl
  | cons x xs ih => exact ih (x.char == '=')

/-- A closing bracket that counts. -/
def closesLevel (afterEquals : Bool) (m : Marked) : Bool :=
  m.role == .code && closesNesting m.char && !(m.char == '>' && afterEquals)

/-- The depth behind a text in which no closer meets a depth of zero. -/
def level? : Nat → Bool → List Marked → Option Nat
  | depth, _, [] => some depth
  | depth, afterEquals, m :: ms =>
    if closesLevel afterEquals m && depth == 0 then none
    else level? (depthAfter depth afterEquals m) (m.char == '=') ms

theorem opensNesting_of_closesNesting {c : Char} (h : closesNesting c = true) :
    opensNesting c = false := by
  simp only [closesNesting, Bool.or_eq_true, beq_iff_eq] at h
  rcases h with ((rfl | rfl) | rfl) | rfl <;> rfl

theorem depthAfter_of_closesLevel (h : closesLevel afterEquals m = true) (depth : Nat) :
    depthAfter depth afterEquals m = depth - 1 := by
  simp only [closesLevel, Bool.and_eq_true, beq_iff_eq, Bool.not_eq_true'] at h
  obtain ⟨⟨hrole, hcloses⟩, harrow⟩ := h
  simp [depthAfter, hrole, opensNesting_of_closesNesting hcloses, hcloses, harrow]

theorem depthAfter_add_of_not_closesLevel (h : closesLevel afterEquals m = false)
    (depth k : Nat) :
    depthAfter (depth + k) afterEquals m = depthAfter depth afterEquals m + k := by
  unfold depthAfter
  split
  · rfl
  · rename_i hrole
    split
    · omega
    · rename_i hopens
      have hnot : (closesNesting m.char && !(m.char == '>' && afterEquals)) = false := by
        have hcode : (m.role == .code) = true := by simpa using hrole
        simpa [closesLevel, hcode] using h
      rw [hnot]
      rfl

theorem depthAfter_add (h : (closesLevel afterEquals m && depth == 0) = false)
    (k : Nat) :
    depthAfter (depth + k) afterEquals m = depthAfter depth afterEquals m + k := by
  cases hcloses : closesLevel afterEquals m with
  | false => exact depthAfter_add_of_not_closesLevel hcloses depth k
  | true =>
    have hdepth : depth ≠ 0 := by simpa [hcloses] using h
    rw [depthAfter_of_closesLevel hcloses, depthAfter_of_closesLevel hcloses]
    omega

theorem depthAfter_mono (h : depth ≤ depth') (afterEquals : Bool) (m : Marked) :
    depthAfter depth afterEquals m ≤ depthAfter depth' afterEquals m := by
  cases hcloses : closesLevel afterEquals m with
  | false =>
    obtain ⟨k, rfl⟩ := Nat.exists_eq_add_of_le h
    rw [depthAfter_add_of_not_closesLevel hcloses]
    omega
  | true =>
    rw [depthAfter_of_closesLevel hcloses, depthAfter_of_closesLevel hcloses]
    omega

theorem depthThrough_of_level? (h : level? depth afterEquals ms = some depth')
    (k : Nat) : depthThrough (depth + k) afterEquals ms = depth' + k := by
  induction ms generalizing depth afterEquals with
  | nil =>
    obtain rfl := Option.some.inj h
    rfl
  | cons m ms ih =>
    rw [level?] at h
    split at h
    · cases h
    · rename_i hcloses
      rw [depthThrough, depthAfter_add (by simpa using hcloses)]
      exact ih h

/-- A closer that meets a depth of zero brings the next higher count down to
the same depth. -/
theorem depthThrough_of_level?_none (h : level? depth afterEquals ms = none) :
    depthThrough (depth + 1) afterEquals ms = depthThrough depth afterEquals ms := by
  induction ms generalizing depth afterEquals with
  | nil => cases h
  | cons m ms ih =>
    rw [level?] at h
    split at h
    · rename_i hcloses
      simp only [Bool.and_eq_true, beq_iff_eq] at hcloses
      obtain ⟨hcloses, rfl⟩ := hcloses
      simp only [depthThrough, depthAfter_of_closesLevel hcloses]
    · rename_i hcloses
      rw [depthThrough, depthAfter_add (by simpa using hcloses)]
      exact ih h

/-! ## Cutting -/

theorem segmentsFrom_ne_nil (separators : List Char) (depth : Nat)
    (afterEquals : Bool) (ms : List Marked) :
    segmentsFrom separators depth afterEquals ms ≠ [] := by
  cases ms with
  | nil => exact cons_ne_nil _ _
  | cons m ms =>
    rw [segmentsFrom]
    split
    · exact cons_ne_nil _ _
    · cases segmentsFrom separators (depthAfter depth afterEquals m)
        (m.char == '=') ms <;>
        exact cons_ne_nil _ _

theorem depthAfter_of_isCut (h : isCut separators depth m = true) (afterEquals : Bool) :
    depthAfter depth afterEquals m = depth := by
  simp only [isCut, Bool.and_eq_true, Bool.not_eq_true'] at h
  simp [depthAfter, h.1.2, h.2]

/-- The last segment of a text goes on in what follows. -/
theorem segmentsFrom_append {xs : List Marked} {done : List (List Char)}
    {last : List Char}
    (h : segmentsFrom separators depth afterEquals xs = done ++ [last])
    (ys : List Marked) :
    segmentsFrom separators depth afterEquals (xs ++ ys)
      = done ++ last.foldr consSegment
          (segmentsFrom separators (depthThrough depth afterEquals xs)
            (endsInEquals afterEquals xs) ys) := by
  induction xs generalizing depth afterEquals done last with
  | nil =>
    obtain ⟨rfl, rfl⟩ : done = [] ∧ last = [] := by
      cases done with
      | nil => exact ⟨rfl, (List.cons.inj h).1.symm⟩
      | cons x xs => exact absurd (List.cons.inj h).2.symm (by simp)
    rfl
  | cons m ms ih =>
    rw [cons_append, segmentsFrom]
    rw [segmentsFrom] at h
    split at h
    · rename_i hcut
      rw [if_pos hcut, depthThrough, depthAfter_of_isCut hcut, endsInEquals]
      cases done with
      | nil => exact absurd (List.cons.inj h).2 (segmentsFrom_ne_nil _ _ _ _)
      | cons first done =>
        obtain ⟨rfl, hrest⟩ := List.cons.inj h
        rw [ih hrest]
        rfl
    · rename_i hcut
      rw [if_neg hcut, depthThrough, endsInEquals]
      rcases eq_nil_or_concat
        (segmentsFrom separators (depthAfter depth afterEquals m) (m.char == '=') ms)
        with hnil | ⟨done', last', hsegments⟩
      · exact absurd hnil (segmentsFrom_ne_nil _ _ _ _)
      · rw [concat_eq_append] at hsegments
        rw [ih hsegments]
        rw [hsegments] at h
        cases done' with
        | nil =>
          obtain ⟨rfl, rfl⟩ : done = [] ∧ last = m.char :: last' := by
            cases done with
            | nil => exact ⟨rfl, (List.cons.inj h).1.symm⟩
            | cons x xs => exact absurd (List.cons.inj h).2.symm (by simp)
          rfl
        | cons first done' =>
          have hcons : (m.char :: first) :: done' ++ [last'] = done ++ [last] := h
          obtain ⟨rfl, hlast⟩ := append_inj' hcons rfl
          obtain rfl := (List.cons.inj hlast).1
          rfl

/-- Above depth zero nothing is cut. -/
theorem segmentsFrom_of_level? (h : level? depth afterEquals ms = some depth')
    (k : Nat) : segmentsFrom separators (depth + k + 1) afterEquals ms = [unmark ms] := by
  induction ms generalizing depth afterEquals with
  | nil => rfl
  | cons m ms ih =>
    rw [level?] at h
    split at h
    · cases h
    · rename_i hcloses
      have hcut : isCut separators (depth + k + 1) m = false := by simp [isCut]
      have hdepth : depthAfter (depth + k + 1) afterEquals m
          = depthAfter depth afterEquals m + k + 1 := by
        rw [Nat.add_assoc, depthAfter_add (by simpa using hcloses)]
        rfl
      rw [segmentsFrom, if_neg (by simp [hcut]), hdepth, ih h]
      rfl

/-- A text in one segment stays in one when the count starts higher. -/
theorem segmentsFrom_mono
    (h : segmentsFrom separators depth afterEquals ms = [unmark ms])
    (hle : depth ≤ depth') :
    segmentsFrom separators depth' afterEquals ms = [unmark ms] := by
  induction ms generalizing depth depth' afterEquals with
  | nil => rfl
  | cons m ms ih =>
    rw [segmentsFrom] at h
    split at h
    · obtain ⟨hnil, -⟩ := List.cons.inj h
      cases hnil
    · rename_i hcut
      have hcut' : isCut separators depth' m = false := by
        cases hcut' : isCut separators depth' m with
        | false => rfl
        | true =>
          have hzero : depth' = 0 := by
            simp only [isCut, Bool.and_eq_true, beq_iff_eq] at hcut'
            exact hcut'.1.1.1.2
          obtain rfl : depth = depth' := by omega
          exact absurd hcut' hcut
      have hrest : segmentsFrom separators (depthAfter depth afterEquals m)
          (m.char == '=') ms = [unmark ms] := by
        cases hsegments : segmentsFrom separators (depthAfter depth afterEquals m)
          (m.char == '=') ms with
        | nil => exact absurd hsegments (segmentsFrom_ne_nil _ _ _ _)
        | cons first rest =>
          rw [hsegments] at h
          obtain ⟨hfirst, rfl⟩ := List.cons.inj h
          rw [(List.cons.inj hfirst).2]
          rfl
      rw [segmentsFrom, if_neg (by simp [hcut']),
        ih hrest (depthAfter_mono hle afterEquals m)]
      rfl

end Source

end TypedContent

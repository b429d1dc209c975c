import TypedContent.Proofs.Source.ByteLoops

/-!
# Parts and statements as bytes

The cuts of a text and the end of a statement depend on the nesting depth,
and the depth depends on the byte in front of an angle bracket. That byte is
the equals sign exactly if the character is (`depthStep_eq`).

The slices between two cuts have the offset behind a separator as their
lower bound. That this is a boundary needs separators of ASCII: a separator
outside ASCII could be found in the middle of a character.
-/

namespace TypedContent

namespace ByteScanner

open List Text
open Source (Marked marks unmark unmark_marks opensNesting closesNesting depthAfter
  isCut consSegment segmentsFrom
  endsStatement startsDeclaration statementFrom)

variable {c : Char} {text : List Char} {ms : List Marked}

/-! ## The depth -/

/-- Whether a text ends in an equals sign. -/
def afterEquals (before : List Char) : Bool :=
  before.getLast? == some '='

@[simp] theorem afterEquals_concat (before : List Char) (c : Char) :
    afterEquals (before ++ [c]) = (c == '=') := by
  simp [afterEquals]

theorem depthStep_high (h : 128 ≤ c.toNat) (bytes : List Char) (depth i : Nat) :
    depthStep bytes depth i c = pure depth := by
  have hopens : opensNesting c = false := Bool.eq_false_iff.2 fun hc => by
    simp only [opensNesting, Bool.or_eq_true, beq_iff_eq] at hc
    rcases hc with ((rfl | rfl) | rfl) | rfl <;> exact absurd h (by decide)
  have hcloses : closesNesting c = false := Bool.eq_false_iff.2 fun hc => by
    simp only [closesNesting, Bool.or_eq_true, beq_iff_eq] at hc
    rcases hc with ((rfl | rfl) | rfl) | rfl <;> exact absurd h (by decide)
  simp [depthStep, hopens, hcloses, ne_ascii h (show '>'.toNat < 128 by decide)]

theorem depthStep_eq (before : List Char) (depth : Nat) (c : Char) (rest : List Char) :
    depthStep (utf8 (before ++ c :: rest)) depth (byteLength before) c
      = pure (depthAfter depth (afterEquals before) ⟨.code, c⟩) := by
  by_cases hopens : opensNesting c = true
  · simp [depthStep, depthAfter, hopens]
  · by_cases harrow : c = '>' ∧ 0 < byteLength before
    · obtain ⟨rfl, hpos⟩ := harrow
      have hne : utf8 before ≠ [] := ne_nil_of_length_pos (by rwa [length_utf8])
      have hlast := getLast?_utf8 (show '='.toNat < 128 by decide) before
      rw [getLast?_eq_some_getLast hne, Option.some_inj] at hlast
      have hread : byteAt (utf8 (before ++ '>' :: rest)) (byteLength before - 1)
          = pure ((utf8 before).getLast hne) := by
        rw [byteAt, utf8_append, ← length_utf8,
          getElem?_append_left (by rw [length_utf8]; omega), ← getLast?_eq_getElem?,
          getLast?_eq_some_getLast hne]
      rw [depthStep, if_neg hopens, if_pos ⟨rfl, hpos⟩, hread, pure_bind]
      by_cases hequals : before.getLast? = some '='
      · rw [if_pos (hlast.2 hequals)]
        simp [depthAfter, opensNesting, afterEquals, hequals]
      · rw [if_neg (hlast.not.2 hequals)]
        simp [depthAfter, opensNesting, closesNesting, afterEquals, hequals]
    · -- nothing stands in front of an angle bracket here
      have hplain : (c == '>' && afterEquals before) = false := by
        by_cases hc : c = '>'
        · obtain rfl : before = [] :=
            Decidable.byContradiction fun hne => harrow ⟨hc, byteLength_pos hne⟩
          simp [afterEquals]
        · simp [hc]
      rw [depthStep, if_neg hopens, if_neg harrow]
      cases hcloses : closesNesting c <;> simp [depthAfter, hopens, hplain, hcloses]

/-! ## Parts -/

section

variable {separators : List Char}

theorem cutStep_ignores (hascii : ∀ c ∈ separators, c.toNat < 128) (text : List Char) :
    Ignores (cutStep text separators) := fun s i c h => by
  have hnot : c ∉ separators := fun hc => absurd h (Nat.not_le.2 (hascii c hc))
  simp [cutStep, isCut, hnot, depthStep_high h]

/-- At a cut, the part up to it is sliced off, and the next one starts
behind the separator. Any other character is one more of the current
part. -/
theorem cutStep_eq (hascii : ∀ c ∈ separators, c.toNat < 128)
    {front current rest : List Char} (htext : text = front ++ current ++ c :: rest)
    (done : List (List Char)) (depth : Nat) :
    cutStep text separators ⟨done, depth, byteLength front⟩
      (byteLength (front ++ current)) c
      = pure (.inl (if isCut separators depth ⟨.code, c⟩ then
          ⟨done ++ [current], depth, byteLength (front ++ current ++ [c])⟩
        else ⟨done, depthAfter depth (afterEquals (front ++ current)) ⟨.code, c⟩,
          byteLength front⟩)) := by
  rw [cutStep]
  cases hcut : isCut separators depth ⟨.code, c⟩ with
  | true =>
    simp only [isCut, Bool.and_eq_true, contains_iff_mem] at hcut
    have hnext :
        byteLength (front ++ current ++ [c]) = byteLength (front ++ current) + 1 := by
      rw [byteLength_append _ [c], byteLength_cons, byteLength_nil,
        utf8Size_of_ascii (hascii c hcut.1.1.2)]
    rw [if_pos rfl, if_pos rfl, htext, slice_append, pure_bind, hnext]
  | false => rw [if_neg (by decide), if_neg (by decide), htext, depthStep_eq, pure_bind]

theorem walk_cutStep (hascii : ∀ c ∈ separators, c.toNat < 128)
    {front current : List Char} (htext : text = front ++ current ++ unmark ms)
    (depth : Nat) (done : List (List Char)) :
    walk (cutStep text separators) (lastCut text) ⟨done, depth, byteLength front⟩
      (byteLength (front ++ current)) ms
      = pure (done ++ current.foldr consSegment
        (segmentsFrom separators depth (afterEquals (front ++ current)) ms)) := by
  induction ms generalizing front current depth done with
  | nil =>
    obtain rfl : text = front ++ current := by rw [htext, unmark, map_nil, append_nil]
    rw [walk, lastCut, sliceFrom_append, pure_bind, segmentsFrom,
      Source.foldr_consSegment, append_nil]
  | cons m ms ih =>
    obtain ⟨role, c⟩ := m
    replace htext : text = front ++ current ++ c :: unmark ms := htext
    have hlength : byteLength (front ++ current) + c.utf8Size
        = byteLength (front ++ current ++ [c]) := by
      simp [Nat.add_assoc]
    have hpass (depth : Nat) :=
      @ih front (current ++ [c]) (by rw [htext]; simp) depth done
    simp only [← append_assoc, afterEquals_concat, foldr_append] at hpass
    rw [segmentsFrom]
    by_cases hrole : role = .code
    · subst hrole
      rw [walk_code rfl, cutStep_eq hascii htext, pure_bind, Sum.elim_inl, hlength]
      cases isCut separators depth ⟨.code, c⟩ with
      | true =>
        have hnext := @ih (front ++ current ++ [c]) [] (by rw [htext]; simp) depth
          (done ++ [current])
        rw [append_nil, afterEquals_concat] at hnext
        rw [if_pos rfl, if_pos rfl, hnext, Source.foldr_consSegment]
        simp
      | false => exact hpass _
    · have hcut : isCut separators depth ⟨role, c⟩ = false := by simp [isCut, hrole]
      have hkeep : depthAfter depth (afterEquals (front ++ current)) ⟨role, c⟩
          = depth := by simp [depthAfter, hrole]
      rw [walk_of_ne hrole, hlength, hcut, hkeep]
      exact hpass depth

theorem parts_eq (hascii : ∀ c ∈ separators, c.toNat < 128) (text : List Char) :
    parts text separators = pure (Source.parts separators text) := by
  have hwalk : walk (cutStep text separators) (lastCut text) ⟨[], 0, 0⟩ 0 (marks text)
      = pure (segmentsFrom separators 0 false (marks text)) :=
    @walk_cutStep text (marks text) _ hascii [] [] (by simp [unmark_marks]) 0 []
  rw [parts, scan_boundary (cutStep_ignores hascii text) drop_zero, hwalk, pure_bind]
  rfl

end

/-! ## Statements -/

theorem statementStep_ignores (text : List Char) :
    Ignores (statementStep text) := fun depth i c h => by
  have hne : c ≠ ';' ∧ c ≠ '\n' := ⟨ne_ascii h (by decide), ne_ascii h (by decide)⟩
  simp [statementStep, hne, depthStep_high h]

/-- The step stops in front of a character that ends the statement, and
keeps count of the depth otherwise. -/
theorem statementStep_eq {before : List Char}
    (htext : text = before ++ c :: unmark ms) (depth : Nat) :
    statementStep text depth (byteLength before) c
      = pure (if endsStatement depth ⟨.code, c⟩ ms then .inr (byteLength before)
        else .inl (depthAfter depth (afterEquals before) ⟨.code, c⟩)) := by
  rw [statementStep]
  by_cases hsemicolon : c = ';' ∧ depth = 0
  · obtain ⟨rfl, rfl⟩ := hsemicolon
    rfl
  · rw [if_neg hsemicolon]
    by_cases hline : c = '\n' ∧ depth = 0
    · obtain ⟨rfl, rfl⟩ := hline
      have hrest : sliceFrom text (byteLength before + 1) = pure (unmark ms) := by
        have hslice := sliceFrom_append (before ++ ['\n']) (unmark ms)
        rw [← append_cons, ← htext, byteLength_append] at hslice
        exact hslice
      rw [if_pos ⟨rfl, rfl⟩, hrest, pure_bind]
      cases hstarts : startsDeclaration (unmark ms) <;>
        simp [endsStatement, hstarts, depthAfter, opensNesting, closesNesting]
    · have hnot : endsStatement depth ⟨.code, c⟩ ms = false := by grind [endsStatement]
      rw [if_neg hline, htext, depthStep_eq, pure_bind, hnot]
      rfl

theorem walk_statementStep {before : List Char} (htext : text = before ++ unmark ms)
    (depth : Nat) :
    walk (statementStep text) (fun _ => pure (byteLength text)) depth
      (byteLength before) ms
      = pure (byteLength before + byteLength
        (statementFrom depth (afterEquals before) ms)) := by
  induction ms generalizing before depth with
  | nil => simp [htext, walk, statementFrom, unmark]
  | cons m ms ih =>
    obtain ⟨role, c⟩ := m
    replace htext : text = before ++ c :: unmark ms := htext
    have hlength : byteLength before + c.utf8Size = byteLength (before ++ [c]) := by simp
    have hnext (depth : Nat) := @ih (before ++ [c]) (by rw [htext]; simp) depth
    simp only [afterEquals_concat, ← hlength, Nat.add_assoc, ← byteLength_cons] at hnext
    rw [statementFrom]
    by_cases hrole : role = .code
    · subst hrole
      rw [walk_code rfl, statementStep_eq htext, pure_bind]
      cases endsStatement depth ⟨.code, c⟩ ms with
      | true => rfl
      | false => exact hnext _
    · have hnot : endsStatement depth ⟨role, c⟩ ms = false := by
        simp [endsStatement, hrole]
      have hkeep : depthAfter depth (afterEquals before) ⟨role, c⟩ = depth := by
        simp [depthAfter, hrole]
      rw [walk_of_ne hrole, hnot, hkeep]
      exact hnext depth

theorem statementEnd_eq (text : List Char) (start : Nat) :
    statementEnd text start = pure (Source.statementEnd text start) := by
  have htext : text = takeBytes start text ++ unmark (marks (dropBytes start text)) := by
    rw [unmark_marks, takeBytes_append_dropBytes]
  rw [statementEnd, scan_eq_walk (statementStep_ignores text), walk_statementStep htext]
  rfl

end ByteScanner

end TypedContent

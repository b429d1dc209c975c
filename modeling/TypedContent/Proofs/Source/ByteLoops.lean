import TypedContent.Proofs.Source.ByteTrivia
import TypedContent.Proofs.Source.MatchingBrackets

/-!
# Loops over bytes

The searches for brackets, separators and statements are one loop with
different bodies. The loop always comes to an end, as each round takes it
further on (`scan_ends`). What it does is told once for all bodies that have
no interest in bytes outside ASCII: it is a walk over the marked characters,
with the body run on those of the code (`scan_eq_walk`). So an offset inside
a character is as good as the next boundary.

From there on, each search is an induction on the marked characters. The
bounds of slices are the lengths of what stands in front, so each statement
is about a text that is taken apart at the places where the search is.
-/

namespace TypedContent

namespace ByteScanner

open List Text
open Source (Marked marks unmark unmark_marks Lexeme closerOf? isCloser enclosed?
  nest? openedBlock?)

/-! ## Scanning as walking -/

section

variable {σ α : Type} {act : σ → Nat → Char → Run (σ ⊕ α)} {finish : σ → Run α}
  {bytes cs : List Char} {i : Nat} {c : Char}

theorem scan_skip {next : Nat} (hlt : i < bytes.length)
    (hskip : skipTrivia bytes i = pure (some next)) (s : σ) :
    scan bytes act finish s i = scan bytes act finish s next := by
  refine loop_step ?_
  rw [scanRound, if_pos hlt, hskip, pure_bind]

theorem scan_step (h : bytes.drop i = c :: cs)
    (hskip : skipTrivia bytes i = pure none) (s : σ) :
    scan bytes act finish s i = act s i c >>= Sum.elim
      (fun s => scan bytes act finish s (i + 1)) pure := by
  obtain ⟨hlt, hread, -⟩ := of_drop h
  rw [scan, loop_eq, scanRound, if_pos hlt, hskip, pure_bind, hread,
    pure_bind, bind_assoc]
  refine bind_congr fun next => ?_
  cases next <;> exact pure_bind _ _

theorem scan_of_le (h : bytes.length ≤ i) (s : σ) :
    scan bytes act finish s i = finish s := by
  rw [scan, loop_eq, scanRound, if_neg (Nat.not_lt.2 h), bind_assoc]
  simp only [pure_bind, Sum.elim_inr, bind_pure]

/-- A loop ends if its body does, since it goes on behind the byte or behind
all that is skipped. What holds of each result of the body holds of the
result of the loop. -/
theorem scan_ends {P : α → Prop}
    (hact : ∀ s i c, (utf8 cs)[i]? = some c →
      ∃ next, act s i c = pure next ∧ ∀ a, next = .inr a → P a)
    (hfinish : ∀ s, ∃ a, finish s = pure a ∧ P a) (s : σ) (i : Nat) :
    ∃ a, scan (utf8 cs) act finish s i = pure a ∧ P a := by
  induction hleft : byteLength cs - i using Nat.strongRecOn generalizing s i with
  | ind n ih =>
    by_cases hlt : i < byteLength cs
    · have hbytes : i < (utf8 cs).length := by rwa [length_utf8]
      obtain ⟨found, hskip, hadvance⟩ := skipTrivia_advances hlt
      cases found with
      | some next =>
        obtain ⟨hnext, -, -⟩ := hadvance next rfl
        rw [scan_skip hbytes hskip]
        exact ih _ (by omega) s next rfl
      | none =>
        obtain ⟨next, hnext, hresult⟩ := hact s i _ (getElem?_eq_getElem hbytes)
        rw [scan_step (drop_eq_getElem_cons hbytes) hskip, hnext, pure_bind]
        cases next with
        | inl s => exact ih _ (by omega) s (i + 1) rfl
        | inr a => exact ⟨a, rfl, hresult a rfl⟩
    · rw [scan_of_le (by rw [length_utf8]; omega)]
      exact hfinish s

/-- Bytes outside ASCII, and characters outside ASCII, are nothing to
`act`. -/
def Ignores (act : σ → Nat → Char → Run (σ ⊕ α)) : Prop :=
  ∀ s i c, 128 ≤ c.toNat → act s i c = pure (.inl s)

/-- Run `act` on the characters of the code, one after the other, from byte
offset `i` on. -/
def walk (act : σ → Nat → Char → Run (σ ⊕ α)) (finish : σ → Run α) (s : σ)
    (i : Nat) : List Marked → Run α
  | [] => finish s
  | m :: ms =>
    if m.role = .code then
      act s i m.char >>= Sum.elim (fun s =>
        walk act finish s (i + m.char.utf8Size) ms) pure
    else walk act finish s (i + m.char.utf8Size) ms

theorem walk_code {m : Marked} (h : m.role = .code) (s : σ) (i : Nat) (ms : List Marked) :
    walk act finish s i (m :: ms)
      = act s i m.char >>= Sum.elim (fun s =>
        walk act finish s (i + m.char.utf8Size) ms) pure := by
  rw [walk, if_pos h]

theorem walk_of_ne {m : Marked} (h : m.role ≠ .code) (s : σ) (i : Nat)
    (ms : List Marked) :
    walk act finish s i (m :: ms) = walk act finish s (i + m.char.utf8Size) ms := by
  rw [walk, if_neg h]

theorem walk_lexeme {t : Lexeme} (h : t.role ≠ .code) (s : σ) (i : Nat)
    (ms : List Marked) :
    walk act finish s i (t.marks ++ ms)
      = walk act finish s (i + byteLength t.text) ms := by
  rw [Lexeme.marks]
  generalize t.text = text
  induction text generalizing i with
  | nil => rfl
  | cons c text ih =>
    rw [map_cons, cons_append, walk_of_ne h, ih, byteLength_cons, Nat.add_assoc]

theorem scan_high (hignores : Ignores act) (s : σ) (i : Nat) (b : Char)
    (bs : List Char) (h : bytes.drop i = b :: bs) (hb : 128 ≤ b.toNat) :
    scan bytes act finish s i = scan bytes act finish s (i + 1) := by
  rw [scan_step h (skipTrivia_high h hb), hignores s i b hb, pure_bind, Sum.elim_inl]

/-- From a boundary on, a scan is a walk over the text there. -/
theorem scan_boundary (hignores : Ignores act) (h : bytes.drop i = utf8 cs) (s : σ) :
    scan bytes act finish s i = walk act finish s i (marks cs) := by
  induction cs using Source.lexemes_induction generalizing i s with
  | nil =>
    rw [utf8_nil] at h
    exact scan_of_le (drop_eq_nil_iff.1 h) s
  | @cons cs rest t hread ih =>
    have hskip := skipTrivia_of_lexeme? h hread
    rw [Source.marks_of_lexeme? hread]
    obtain ⟨rfl, hne⟩ := Source.text_of_lexeme? hread
    by_cases hrole : t.role = .code
    · obtain ⟨c, rfl⟩ : ∃ c, t = .code c := by
        cases t with
        | code c => exact ⟨c, rfl⟩
        | literal text => cases hrole
        | comment text => cases hrole
      rw [if_pos hrole] at hskip
      replace h : bytes.drop i = utf8 (c :: rest) := h
      show _ = walk act finish s i (⟨.code, c⟩ :: marks rest)
      rw [walk_code rfl]
      rcases encoding_cases c with ⟨hascii, -⟩ | ⟨hhigh, hbytes⟩
      · rw [utf8_cons_ascii hascii] at h
        simp only [scan_step h hskip, ih (of_drop h).2.2, utf8Size_of_ascii hascii]
      · rw [utf8_cons] at h
        rw [pass_bytes (scan_high hignores s) h hbytes, ih (drop_add h),
          hignores s i c hhigh, length_encoding, pure_bind, Sum.elim_inl]
    · have hlt : i < bytes.length := Nat.lt_of_not_le fun hle => by
        have hlength := congrArg List.length h
        have hpos := byteLength_pos hne
        rw [drop_of_length_le hle, length_utf8, byteLength_append, length_nil] at hlength
        omega
      rw [if_neg hrole] at hskip
      rw [utf8_append] at h
      have hnext := drop_add h
      rw [length_utf8] at hnext
      rw [scan_skip hlt hskip, walk_lexeme hrole, ih hnext]

/-- From any offset on, a scan is a walk over the text from the next
boundary on. -/
theorem scan_eq_walk (hignores : Ignores act) (cs : List Char) (s : σ) (start : Nat) :
    scan (utf8 cs) act finish s start
      = walk act finish s (byteLength (takeBytes start cs))
        (marks (dropBytes start cs)) := by
  obtain ⟨inside, hdrop, hinside, htake⟩ := exists_drop_utf8 start cs
  by_cases hle : start ≤ byteLength cs
  · rw [pass_bytes (scan_high hignores s) hdrop hinside,
      scan_boundary hignores (drop_add hdrop), htake, Nat.min_eq_left hle]
  · have hend : (utf8 cs).length ≤ start := by rw [length_utf8]; omega
    have hnil : dropBytes start cs = [] := Decidable.byContradiction fun hne => by
      have hpos := byteLength_pos hne
      have hlength := congrArg List.length hdrop
      rw [drop_of_length_le hend, length_nil, length_append, length_utf8] at hlength
      omega
    rw [scan_of_le hend, hnil]
    rfl

end

/-! ## The partner of a bracket -/

theorem ascii_of_closerOf? {opener closer : Char} (h : closerOf? opener = some closer) :
    opener.toNat < 128 := by
  rcases Source.closerOf?_cases h with ⟨rfl, -⟩ | ⟨rfl, -⟩ | ⟨rfl, -⟩ <;> decide

theorem closeStep_ignores : Ignores closeStep := fun pending i c h => by
  have hopener : closerOf? c = none :=
    Option.eq_none_iff_forall_ne_some.2 fun _ hcloser =>
      absurd h (Nat.not_le.2 (ascii_of_closerOf? hcloser))
  have hcloser : isCloser c = false := by
    simp [isCloser, ne_ascii h (show '}'.toNat < 128 by decide), ne_ascii h
      (show ']'.toNat < 128 by decide), ne_ascii h (show ')'.toNat < 128 by decide)]
  simp [closeStep, hopener, hcloser]

/-- The step does to the closers that are due what a character of the code
does, and it is the last one if that leaves none. -/
theorem closeStep_eq (due : Char) (outer : List Char) (i : Nat) (c : Char) :
    closeStep (due :: outer) i c
      = pure (match nest? (due :: outer) ⟨.code, c⟩ with
        | none => .inr none
        | some [] => .inr (some i)
        | some (due :: outer) => .inl (due :: outer)) := by
  unfold closeStep nest?
  cases closerOf? c with
  | some closer => rfl
  | none =>
    cases isCloser c with
    | false => rfl
    | true =>
      by_cases hdue : due = c
      · cases outer <;> simp [hdue]
      · simp [hdue]

theorem walk_closeStep (due : Char) (outer : List Char) (i : Nat) (ms : List Marked) :
    walk closeStep (fun _ => pure none) (due :: outer) i ms
      = pure ((enclosed? (due :: outer) ms).map fun found => i + byteLength found.1) := by
  induction ms generalizing due outer i with
  | nil => rfl
  | cons m ms ih =>
    have hcons (found : Option (List Char × List Char)) :
        found.map (fun found => i + m.char.utf8Size + byteLength found.1)
          = (found.map (Source.extendInner [m.char])).map fun found =>
            i + byteLength found.1 := by
      cases found <;> simp [Source.extendInner, Nat.add_assoc]
    by_cases hrole : m.role = .code
    · obtain ⟨role, c⟩ := m
      obtain rfl : role = .code := hrole
      rw [walk_code rfl, closeStep_eq, pure_bind, enclosed?]
      cases nest? (due :: outer) ⟨.code, c⟩ with
      | none => rfl
      | some pending =>
        cases pending with
        | nil => rfl
        | cons due outer =>
          rw [Sum.elim_inl, ih, hcons]
          rfl
    · rw [walk_of_ne hrole, ih, hcons, enclosed?,
        Source.nest?_of_not_bracket (.inl hrole)]
      rfl

/-- At a bracket, the partner is told by the block that the bracket
opens. -/
theorem closeOffset?_append (before : List Char) (opener : Char) (rest : List Char) :
    Source.closeOffset? (before ++ opener :: rest) (byteLength before)
      = (openedBlock? opener (marks rest)).map fun b =>
        byteLength (before ++ opener :: b.inner) := by
  refine Option.ext fun stop => ?_
  rw [Source.closeOffset?_eq_some_iff_block, Option.map_eq_some_iff]
  constructor
  · rintro ⟨front, opener', rest', b, hcs, hlength, hb, hstop⟩
    obtain rfl : before = front := by
      rw [← takeBytes_append before (opener :: rest), hcs, ← hlength, takeBytes_append]
    obtain ⟨rfl, rfl⟩ := List.cons.inj (append_cancel_left hcs)
    exact ⟨b, hb, hstop⟩
  · rintro ⟨b, hb, hstop⟩
    exact ⟨before, opener, rest, b, rfl, rfl, hb, hstop⟩

theorem closeOffset_eq (text : List Char) (start : Nat) :
    closeOffset text start = pure (Source.closeOffset? text start) := by
  rw [closeOffset]
  cases hbyte : (utf8 text)[start]?.bind closerOf? with
  | none =>
    have hnone : Source.closeOffset? text start = none := by
      refine Option.eq_none_iff_forall_ne_some.2 fun stop hstop => ?_
      obtain ⟨before, opener, rest, b, rfl, rfl, hb, -⟩ :=
        Source.closeOffset?_eq_some_iff_block.1 hstop
      obtain ⟨xs, closer, ys, -, hpair, -, -⟩ :=
        Source.openedBlock?_eq_some_iff_marks.1 hb
      rw [(getElem?_utf8_eq_some_iff (ascii_of_closerOf? hpair)).2
        ⟨before, rest, rfl, rfl⟩, Option.bind_some, hpair] at hbyte
      cases hbyte
    rw [hnone]
  | some closer =>
    obtain ⟨opener, hopener, hpair⟩ := Option.bind_eq_some_iff.1 hbyte
    have hascii := ascii_of_closerOf? hpair
    obtain ⟨before, rest, rfl, rfl⟩ := (getElem?_utf8_eq_some_iff hascii).1 hopener
    have hdrop :
        (utf8 (before ++ opener :: rest)).drop (byteLength before + 1) = utf8 rest := by
      rw [utf8_append, utf8_cons_ascii hascii, ← length_utf8, drop_append]
      simp
    have hblock : openedBlock? opener (marks rest)
        = (enclosed? [closer] (marks rest)).map fun found =>
        { before := [], opener, inner := found.1, closer, after := found.2 } := by
      rw [openedBlock?, hpair, Option.bind_eq_bind, Option.bind_some]
      cases enclosed? [closer] (marks rest) <;> rfl
    simp only
    rw [scan_boundary closeStep_ignores hdrop, walk_closeStep, closeOffset?_append,
      hblock, Option.map_map]
    simp [Function.comp_def, utf8Size_of_ascii hascii, Nat.add_assoc]

/-! ## The first block -/

/-- A search for what is not an opening bracket finds nothing, at any byte
that it may stop at. -/
theorem blockFrom_of_not_opener {opener : Char} (h : closerOf? opener = none)
    (text : List Char) (start : Nat) :
    blockFrom text start opener = pure none := by
  have hact (s : Unit) (i : Nat) (c : Char) (hbyte : (utf8 text)[i]? = some c) :
      ∃ next, blockStep text opener s i c = pure next ∧ ∀ a, next = .inr a →
        a = none := by
    by_cases hc : c = opener
    · refine ⟨.inr none, ?_, fun a ha => (Sum.inr.inj ha).symm⟩
      rw [blockStep, if_pos hc, closeOffset, hbyte, Option.bind_some, hc, h]
      exact pure_bind _ _
    · refine ⟨.inl (), ?_, nofun⟩
      rw [blockStep, if_neg hc]
  obtain ⟨found, hscan, rfl⟩ := scan_ends hact (fun _ => ⟨none, rfl, rfl⟩) () start
  exact hscan

/-- What a block holds and its offsets, when it stands behind `before`. -/
def spanBehind (before : List Char) (b : Source.Block) : List Char × Nat × Nat :=
  (b.inner, byteLength before + b.start, byteLength before + b.stop)

/-- At its opening bracket, a block is read off. -/
theorem blockStep_opener {text before rest : List Char} {opener : Char}
    (htext : text = before ++ opener :: rest) :
    blockStep text opener () (byteLength before) opener
      = pure (.inr ((openedBlock? opener (marks rest)).map (spanBehind before))) := by
  rw [blockStep, if_pos rfl, closeOffset_eq, htext, closeOffset?_append, pure_bind]
  cases hb : openedBlock? opener (marks rest) with
  | none => rfl
  | some b =>
    obtain ⟨rfl, -⟩ := Source.openedBlock?_replace_after hb []
    obtain ⟨xs, closer, ys, -, hpair, -, hshape⟩ :=
      Source.openedBlock?_eq_some_iff_marks.1 hb
    have hspan : spanBehind before b
        = (b.inner, byteLength before, byteLength (before ++ opener :: b.inner) + 1) := by
      rw [hshape]
      rcases Source.closerOf?_cases hpair with ⟨rfl, rfl⟩ | ⟨rfl, rfl⟩ | ⟨rfl, rfl⟩ <;>
        simp [spanBehind, Source.Block.stop, Source.Block.start, Source.Block.text,
          Nat.add_assoc] <;> rfl
    have hnext : byteLength before + 1 = byteLength (before ++ [opener]) := by
      rw [byteLength_append, byteLength_cons,
        utf8Size_of_ascii (ascii_of_closerOf? hpair), byteLength_nil]
    have hslice := slice_append (before ++ [opener]) b.inner (b.closer :: b.after)
    rw [← append_cons before opener b.inner, append_assoc, cons_append, ← hnext] at hslice
    simp only [Option.map_some]
    rw [hslice, pure_bind, hspan]

theorem walk_blockStep {text before : List Char} {opener : Char} {ms : List Marked}
    (htext : text = before ++ unmark ms)
    (hmarks : ∀ left right, ms = left ++ ⟨.code, opener⟩ :: right →
      right = marks (unmark right)) :
    walk (blockStep text opener) (fun _ => pure none) () (byteLength before) ms
      = pure ((Source.firstBlock? opener ms).map (spanBehind before)) := by
  induction ms generalizing before with
  | nil => rfl
  | cons m ms ih =>
    obtain ⟨role, c⟩ := m
    replace htext : text = before ++ c :: unmark ms := htext
    have hlength : byteLength before + c.utf8Size = byteLength (before ++ [c]) := by simp
    have hnext := @ih (before ++ [c]) (by rw [htext, append_cons]) fun left right h =>
      hmarks (⟨role, c⟩ :: left) right (by rw [h, cons_append])
    have hspan : spanBehind (before ++ [c]) = spanBehind before ∘ fun b =>
        { b with before := c :: b.before } := by
      funext b
      simp [spanBehind, Source.Block.stop, Source.Block.start, Source.Block.text,
        Nat.add_assoc]
    rw [Source.firstBlock?]
    by_cases hrole : role = .code
    · subst hrole
      by_cases hc : c = opener
      · subst hc
        rw [walk_code rfl, blockStep_opener htext, ← hmarks [] ms rfl, pure_bind,
          Sum.elim_inr, if_pos ⟨rfl, rfl⟩]
      · rw [walk_code rfl, blockStep, if_neg hc, pure_bind, Sum.elim_inl, hlength,
          hnext, if_neg fun h => hc h.2, Option.map_map, hspan]
    · rw [walk_of_ne hrole, hlength, hnext, if_neg fun h => hrole h.1,
        Option.map_map, hspan]

theorem blockFrom_eq (text : List Char) (start : Nat) (opener : Char) :
    blockFrom text start opener
      = pure ((Source.blockFrom? text start opener).map fun b =>
        (b.inner, b.start, b.stop)) := by
  cases hpair : closerOf? opener with
  | none =>
    have hnone : Source.blockFrom? text start opener = none := by
      refine Option.map_eq_none_iff.2 (Option.eq_none_iff_forall_ne_some.2 fun b hb => ?_)
      obtain ⟨front, rest, found, -, hfound, -⟩ := Source.exists_of_firstBlock? hb
      obtain ⟨xs, closer, ys, -, hcloser, -, -⟩ :=
        Source.openedBlock?_eq_some_iff_marks.1 hfound
      rw [hpair] at hcloser
      cases hcloser
    rw [blockFrom_of_not_opener hpair, hnone]
    rfl
  | some closer =>
    have hascii := ascii_of_closerOf? hpair
    have hignores : Ignores (blockStep text opener) := fun _ _ _ h => by
      rw [blockStep, if_neg (ne_ascii h hascii)]
    have hslash : opener ≠ '/' := by
      rintro rfl
      cases hpair
    have hsplit :
        text = takeBytes start text ++ unmark (marks (dropBytes start text)) := by
      rw [unmark_marks, takeBytes_append_dropBytes]
    have hwalk := walk_blockStep hsplit fun left right h => by
      obtain ⟨before, after, -, -, rfl, -⟩ := Source.marks_split hslash h
      rw [unmark_marks]
    rw [blockFrom, scan_eq_walk hignores, hwalk, Source.blockFrom?, Option.map_map]
    refine congrArg pure (congrArg (Option.map · _) (funext fun b => ?_))
    simp [spanBehind, Source.Block.stop, Source.Block.start, Source.Block.text,
      Nat.add_assoc]

end ByteScanner

end TypedContent

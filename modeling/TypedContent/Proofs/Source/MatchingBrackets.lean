import TypedContent.Proofs.Source.Lexemes
import TypedContent.Proofs.Source.Objects
import TypedContent.Proofs.Text.Utf8

/-!
# The partner of a bracket

The search for the end of a block keeps the closers that are due. What it
finds can be said without them: the brackets among the lexemes that it
passes form a properly nested word, and the next lexeme is the closer of the
bracket that it started from (`openedBlock?_eq_some_iff`). A stack that is
empty before and after a word is the same as proper nesting
(`nestAll?_eq_some_nil_iff`).

The text before the bracket and the text behind its partner have no say in
this (`openedBlock?_replace_after`), so a block that is taken out of its
text is found again as it is.
-/

namespace TypedContent

open List Option Text

namespace Source

variable {start stop : Nat} {opener : Char} {ms : List Marked} {b : Block}
  {cs : List Char}

/-! ## Nested words -/

/-- The brackets among lexemes. -/
def brackets (ts : List Lexeme) : List Char :=
  ts.filterMap fun
    | .code c => if isBracket c then some c else none
    | _ => none

/-- Words of brackets in which every opener is closed by its own kind. -/
inductive Nested : List Char → Prop where
  | nil : Nested []
  | block {opener closer : Char} {inner rest : List Char}
      (hpair : closerOf? opener = some closer)
      (hinner : Nested inner) (hrest : Nested rest) :
      Nested (opener :: (inner ++ closer :: rest))

/-- Only the brackets of the code count. -/
theorem nestAll?_marksOf (pending : List Char) (ts : List Lexeme) :
    nestAll? pending (marksOf ts) = nestAll? pending
      ((brackets ts).map (Marked.mk .code)) := by
  induction ts generalizing pending with
  | nil => rfl
  | cons t ts ih =>
    -- a lexeme without a bracket leaves what is due as it is
    have hpass (hmarks : ∀ m ∈ t.marks, m.role ≠ .code ∨ isBracket m.char = false) :
        nestAll? pending (marksOf (t :: ts))
          = nestAll? pending ((brackets ts).map (Marked.mk .code)) := by
      rw [marksOf_cons, nestAll?_append_eq, nestAll?_of_not_bracket hmarks, bind_some, ih]
    cases t with
    | literal text => exact hpass (by simp [Lexeme.marks, Lexeme.role])
    | comment text => exact hpass (by simp [Lexeme.marks, Lexeme.role])
    | code c =>
      cases hc : isBracket c with
      | false =>
        have hnone : brackets (.code c :: ts) = brackets ts := by simp [brackets, hc]
        rw [hnone]
        exact hpass (by simp [Lexeme.marks, Lexeme.text, hc])
      | true =>
        have hsome : brackets (.code c :: ts) = c :: brackets ts := by simp [brackets, hc]
        rw [hsome, marksOf_cons, map_cons]
        show nestAll? pending ([⟨.code, c⟩] ++ marksOf ts)
          = nestAll? pending ([⟨.code, c⟩] ++ _)
        simp only [nestAll?_append_eq, ih]

theorem Nested.nestAll?_eq {word : List Char} (h : Nested word) :
    nestAll? [] (word.map (Marked.mk .code)) = some [] := by
  induction h with
  | nil => rfl
  | @block opener closer inner rest hpair _ _ ihinner ihrest =>
    rw [map_cons, map_append, map_cons, nestAll?_block hpair ihinner]
    exact ihrest

/-- A closer that is due below all others is met when these are closed. -/
theorem exists_of_nestAll?_concat {pending : List Char} {due : Char}
    (h : nestAll? (pending ++ [due]) ms = some []) :
    ∃ xs ys, ms = xs ++ ⟨.code, due⟩ :: ys ∧ nestAll? pending xs = some []
      ∧ nestAll? [] ys = some [] := by
  induction ms generalizing pending with
  | nil =>
    have hnil : pending ++ [due] = [] := Option.some.inj h
    simp at hnil
  | cons m ms ih =>
    obtain ⟨after, hm, hms⟩ := nestAll?_cons h
    rcases nest?_concat hm with ⟨rest, hrest, rfl⟩ | ⟨rfl, rfl, rfl⟩
    · obtain ⟨xs, ys, rfl, hxs, hys⟩ := ih hms
      refine ⟨m :: xs, ys, rfl, ?_, hys⟩
      rw [nestAll?, foldlM_cons, hrest]
      exact hxs
    · exact ⟨[], ms, rfl, rfl, hms⟩

theorem nested_of_nestAll? {word : List Char} (hword : ∀ c ∈ word, isBracket c = true)
    (h : nestAll? [] (word.map (Marked.mk .code)) = some []) : Nested word := by
  induction hlength : word.length using Nat.strongRecOn generalizing word with
  | ind n ih =>
    cases word with
    | nil => exact .nil
    | cons opener word =>
      obtain ⟨after, hopen, hrest⟩ := nestAll?_cons h
      cases hpair : closerOf? opener with
      | none =>
        have hcloser : isCloser opener = true := by
          simpa [isBracket, hpair] using hword opener
        simp [nest?, hpair, hcloser] at hopen
      | some closer =>
        obtain rfl : [closer] = after := by simpa [nest?, hpair] using hopen
        rw [← nil_append [closer]] at hrest
        obtain ⟨xs, ys, hsplit, hxs, hys⟩ := exists_of_nestAll?_concat hrest
        obtain ⟨inner, tail, rfl, rfl, htail⟩ := map_eq_append_iff.1 hsplit
        obtain ⟨last, rest, rfl, hlast, rfl⟩ := map_eq_cons_iff.1 htail
        obtain rfl : last = closer := (Marked.mk.inj hlast).2
        have hshorter : inner.length < n ∧ rest.length < n := by
          simp only [length_cons, length_append] at hlength
          omega
        have hbrackets : ∀ c ∈ inner ++ last :: rest, isBracket c = true := fun c hc =>
          hword c (mem_cons_of_mem _ hc)
        refine .block hpair (ih _ hshorter.1 (fun c hc => hbrackets c ?_) hxs rfl)
          (ih _ hshorter.2 (fun c hc => hbrackets c ?_) hys rfl)
        · exact mem_append_left _ hc
        · exact mem_append_right _ (mem_cons_of_mem _ hc)

/-- Nothing is due behind lexemes that close what they open, and nothing
else. -/
theorem nestAll?_eq_some_nil_iff {ts : List Lexeme} :
    nestAll? [] (marksOf ts) = some [] ↔ Nested (brackets ts) := by
  rw [nestAll?_marksOf]
  refine ⟨nested_of_nestAll? fun c hc => ?_, Nested.nestAll?_eq⟩
  obtain ⟨t, -, ht⟩ := mem_filterMap.1 hc
  cases t with
  | literal text => cases ht
  | comment text => cases ht
  | code d =>
    simp only at ht
    split at ht
    · obtain rfl := Option.some.inj ht
      assumption
    · cases ht

/-! ## Blocks -/

theorem openedBlock?_eq_some_iff_marks :
    openedBlock? opener ms = some b ↔ ∃ xs closer ys, ms = xs ++ ⟨.code, closer⟩ :: ys
      ∧ closerOf? opener = some closer ∧ nestAll? [] xs = some []
      ∧ b = { before := [], opener, inner := unmark xs, closer, after := unmark ys } := by
  rw [openedBlock?]
  cases hpair : closerOf? opener with
  | none => simp
  | some closer =>
    have hfound (inner after : List Char) :=
      @enclosed?_eq_some_iff closer (isCloser_of_closerOf? hpair) [] inner after ms
    rw [nil_append] at hfound
    change (enclosed? [closer] ms).bind (fun found =>
      some { before := [], opener, inner := found.1, closer, after := found.2 : Block })
        = some b ↔ _
    constructor
    · intro h
      obtain ⟨⟨inner, after⟩, hinner, hb⟩ := bind_eq_some_iff.1 h
      obtain ⟨xs, ys, hms, hxs, rfl, rfl⟩ := (hfound inner after).1 hinner
      exact ⟨xs, closer, ys, hms, rfl, hxs, (Option.some.inj hb).symm⟩
    · rintro ⟨xs, closer', ys, hms, hcloser, hxs, rfl⟩
      obtain rfl := Option.some.inj hcloser
      exact bind_eq_some_iff.2 ⟨_, (hfound _ _).2 ⟨xs, ys, hms, hxs, rfl, rfl⟩, rfl⟩

/-- The block of a bracket reaches to the lexeme that is its closer, over
lexemes whose brackets are nested. -/
theorem openedBlock?_eq_some_iff {rest : List Char} :
    openedBlock? opener (marks rest) = some b
      ↔ ∃ scanned closer later, lexemes rest = scanned ++ .code closer :: later
      ∧ closerOf? opener = some closer ∧ Nested (brackets scanned)
      ∧ b = { before := [], opener, inner := textOf scanned, closer,
              after := textOf later } := by
  rw [openedBlock?_eq_some_iff_marks]
  constructor
  · rintro ⟨xs, closer, ys, hms, hpair, hxs, rfl⟩
    obtain ⟨scanned, later, hlexemes, rfl, rfl⟩ := marks_eq_append_iff.1 hms
    refine ⟨scanned, closer, later, hlexemes, hpair, nestAll?_eq_some_nil_iff.1 hxs, ?_⟩
    rw [unmark_marksOf, unmark_marksOf]
  · rintro ⟨scanned, closer, later, hlexemes, hpair, hnested, rfl⟩
    refine ⟨marksOf scanned, closer, marksOf later,
      marks_eq_append_iff.2 ⟨scanned, later, hlexemes, rfl, rfl⟩, hpair,
      nestAll?_eq_some_nil_iff.2 hnested, ?_⟩
    rw [unmark_marksOf, unmark_marksOf]

/-- What stands behind a block may be exchanged for anything. -/
theorem openedBlock?_replace_after {rest : List Char}
    (h : openedBlock? opener (marks rest) = some b) (after : List Char) :
    rest = b.inner ++ b.closer :: b.after
      ∧ openedBlock? opener (marks (b.inner ++ b.closer :: after))
      = some { b with after } := by
  obtain ⟨xs, closer, ys, hms, hpair, hxs, rfl⟩ := openedBlock?_eq_some_iff_marks.1 h
  have hslash : closer ≠ '/' := by
    rintro rfl
    cases isCloser_of_closerOf? hpair
  obtain ⟨left, right, rfl, rfl, rfl, hreplace⟩ := marks_split hslash hms
  simp only [unmark_marks]
  refine ⟨trivial, openedBlock?_eq_some_iff_marks.2
    ⟨marks left, closer, marks after, hreplace after, hpair, hxs, ?_⟩⟩
  simp only [unmark_marks]

theorem closeOffset?_eq_some_iff_block :
    closeOffset? cs start = some stop
      ↔ ∃ before opener rest b, cs = before ++ opener :: rest
      ∧ byteLength before = start ∧ openedBlock? opener (marks rest) = some b
      ∧ byteLength (before ++ opener :: b.inner) = stop := by
  -- the offset of the partner is the length of what stands before it
  have hstop {opener : Char} {rest : List Char} {b : Block}
      (hb : openedBlock? opener (marks rest) = some b)
      (before : List Char) : byteLength before + b.stop - byteLength [b.closer]
        = byteLength (before ++ opener :: b.inner) := by
    obtain ⟨xs, closer, ys, -, -, -, rfl⟩ := openedBlock?_eq_some_iff_marks.1 hb
    simp only [Block.stop, Block.start, Block.text, byteLength_append, byteLength_cons,
      byteLength_nil]
    omega
  rw [closeOffset?]
  constructor
  · intro h
    obtain ⟨suffix, hsuffix, hrest⟩ := bind_eq_some_iff.1 h
    obtain ⟨before, rfl, rfl⟩ := suffixAt?_eq_some_iff.1 hsuffix
    cases suffix with
    | nil => cases hrest
    | cons opener rest =>
      obtain ⟨b, hb, hb'⟩ := bind_eq_some_iff.1 hrest
      exact ⟨before, opener, rest, b, rfl, rfl, hb,
        (hstop hb before).symm.trans (Option.some.inj hb')⟩
  · rintro ⟨before, opener, rest, b, rfl, rfl, hb, rfl⟩
    refine bind_eq_some_iff.2 ⟨opener :: rest,
      suffixAt?_eq_some_iff.2 ⟨before, rfl, rfl⟩, ?_⟩
    exact bind_eq_some_iff.2 ⟨b, hb, congrArg some (hstop hb before)⟩

/-- A first block stands where its bracket is the first one of the code. -/
theorem exists_of_firstBlock? (h : firstBlock? opener ms = some b) :
    ∃ front rest found, ms = front ++ ⟨.code, opener⟩ :: rest
      ∧ openedBlock? opener rest = some found
      ∧ b = { found with before := unmark front } := by
  induction ms generalizing b with
  | nil => cases h
  | cons m ms ih =>
    rw [firstBlock?] at h
    split at h
    · rename_i hm
      obtain ⟨role, c⟩ := m
      obtain ⟨rfl, rfl⟩ := hm
      obtain ⟨xs, closer, ys, -, -, -, rfl⟩ := openedBlock?_eq_some_iff_marks.1 h
      exact ⟨[], ms, _, rfl, h, rfl⟩
    · obtain ⟨b', hb', rfl⟩ := map_eq_some_iff.1 h
      obtain ⟨front, rest, found, rfl, hfound, rfl⟩ := ih hb'
      exact ⟨m :: front, rest, found, rfl, hfound, rfl⟩

/-- A block that stands alone is found as it was. -/
theorem blockFrom?_text (h : blockFrom? cs start opener = some b) :
    blockFrom? b.text 0 opener = some { b with before := [], after := [] } := by
  obtain ⟨b', hb', rfl⟩ := map_eq_some_iff.1 h
  obtain ⟨front, rest, found, hmarks, hfound, rfl⟩ := exists_of_firstBlock? hb'
  obtain ⟨xs, closer, ys, -, hpair, -, hshape⟩ := openedBlock?_eq_some_iff_marks.1 hfound
  have hopener : isQuote opener = false ∧ opener ≠ '/' := by
    rcases closerOf?_cases hpair with ⟨rfl, -⟩ | ⟨rfl, -⟩ | ⟨rfl, -⟩
      <;> exact ⟨rfl, by decide⟩
  obtain ⟨left, right, -, -, rfl, -⟩ := marks_split hopener.2 hmarks
  have halone := (openedBlock?_replace_after hfound []).2
  subst hshape
  have htake : ∀ cs, takeBytes 0 cs = [] := fun cs => by cases cs <;> rfl
  have hdrop : ∀ cs, dropBytes 0 cs = cs := fun cs => by cases cs <;> rfl
  simp only [blockFrom?, block?, htake, hdrop, Block.text, cons_append, nil_append]
  rw [marks_cons hopener.1 hopener.2, firstBlock?, if_pos ⟨rfl, rfl⟩, halone]
  rfl

/-! ## The partner of a bracket -/

/-- The bracket at byte offset `start` is closed at byte offset `stop`: of
the lexemes behind the bracket, the one at `stop` is its closer, and the
brackets between the two are properly nested. -/
def IsClosedAt (cs : List Char) (start stop : Nat) : Prop :=
  ∃ before opener rest scanned closer later,
    cs = before ++ opener :: rest ∧ byteLength before = start
    ∧ lexemes rest = scanned ++ .code closer :: later
      ∧ byteLength (before ++ opener :: textOf scanned) = stop
    ∧ closerOf? opener = some closer ∧ Nested (brackets scanned)

theorem closeOffset?_eq_some_iff_isClosedAt :
    closeOffset? cs start = some stop ↔ IsClosedAt cs start stop := by
  rw [closeOffset?_eq_some_iff_block]
  constructor
  · rintro ⟨before, opener, rest, b, rfl, rfl, hb, rfl⟩
    obtain ⟨scanned, closer, later, hlexemes, hpair, hnested, rfl⟩ :=
      openedBlock?_eq_some_iff.1 hb
    exact ⟨before, opener, rest, scanned, closer, later, rfl, rfl, hlexemes, rfl,
      hpair, hnested⟩
  · rintro ⟨before, opener, rest, scanned, closer, later, rfl, rfl, hlexemes, rfl,
      hpair, hnested⟩
    exact ⟨before, opener, rest, _, rfl, rfl,
      openedBlock?_eq_some_iff.2 ⟨scanned, closer, later, hlexemes, hpair,
        hnested, rfl⟩, rfl⟩

/-- The text from a bracket to its partner has them as partners wherever it
stands. -/
theorem exists_of_closeOffset? (h : closeOffset? cs start = some stop) :
    ∃ before block after, cs = before ++ block ++ after ∧ byteLength before = start
      ∧ start + byteLength block = stop + 1
      ∧ ∀ before' after', closeOffset? (before' ++ block ++ after') (byteLength before')
        = some (byteLength before' + byteLength block - 1) := by
  obtain ⟨before, opener, rest, b, rfl, rfl, hb, rfl⟩ :=
    closeOffset?_eq_some_iff_block.1 h
  have hrest := (openedBlock?_replace_after hb []).1
  obtain ⟨xs, closer, ys, -, hpair, -, hshape⟩ := openedBlock?_eq_some_iff_marks.1 hb
  have hsize : b.closer.utf8Size = 1 := by
    rw [hshape]
    rcases closerOf?_cases hpair with ⟨-, rfl⟩ | ⟨-, rfl⟩ | ⟨-, rfl⟩ <;> rfl
  refine ⟨before, opener :: b.inner ++ [b.closer], b.after, ?_, rfl, ?_,
    fun before' after' => ?_⟩
  · rw [hrest]
    simp
  · simp only [byteLength_append, byteLength_cons, byteLength_nil, hsize]
    omega
  · refine closeOffset?_eq_some_iff_block.2
      ⟨before', opener, b.inner ++ b.closer :: after', _, ?_, rfl,
      (openedBlock?_replace_after hb after').2, ?_⟩
    · simp
    · simp only [byteLength_append, byteLength_cons, byteLength_nil, hsize]
      omega

/-- **The partner of a bracket is its matching bracket.** A partner is found
exactly where the bracket is closed. It stays the same when the text before
the bracket and the text behind the partner are exchanged for any others,
and a block is found again in its own text. -/
theorem partner_iff_closed (cs : List Char) (start : Nat) :
    (∀ stop, closeOffset? cs start = some stop ↔ IsClosedAt cs start stop)
      ∧ (∀ stop, closeOffset? cs start = some stop →
        ∃ before block after, cs = before ++ block ++ after
        ∧ byteLength before = start ∧ start + byteLength block = stop + 1
        ∧ ∀ before' after', closeOffset? (before' ++ block ++ after') (byteLength before')
          = some (byteLength before' + byteLength block - 1))
      ∧ ∀ opener b, blockFrom? cs start opener = some b →
        blockFrom? b.text 0 opener = some { b with before := [], after := [] } :=
  ⟨fun _ => closeOffset?_eq_some_iff_isClosedAt, fun _ => exists_of_closeOffset?,
    fun _ _ => blockFrom?_text⟩

end Source

end TypedContent

import Mathlib.Data.List.TakeDrop
import TypedContent.Proofs.Source.Objects
import TypedContent.Proofs.Source.SingleSpacing
import TypedContent.Source.Pattern

/-!
# What a semicolon settles

A scan that is cut off behind a semicolon has seen all that it needs to mark
the text so far: a semicolon is not part of a pair (`Scan.run_semicolon`).
No word, name or run of blanks reaches beyond it (`name?_semicolon`). The
search for the end of a statement looks ahead at a line break, but not past
a semicolon (`statementFrom_of_ended`). The search for the end of a block is
over, or it goes on with the closers that are still due (`stillDue?`).

So when more lines follow, what has been read stays as it is. What has not
ended goes on in the mode in which the line below starts: in the code, in a
literal or in a block comment (`marks_lineBelow`).
-/

namespace TypedContent

namespace Source

open List Text

/-! ## Marks -/

namespace Scan

variable {pending due : List Char}

/-- Where a scan is behind a text. -/
def through : Scan → List Char → Scan
  | s, [] => s
  | s, c :: cs => (s.step c cs.head?).2.through cs

/-- A semicolon does not start a pair, so it does not matter what
follows. -/
theorem step_semicolon (s : Scan) (next : Option Char) :
    s.step ';' next = s.step ';' none := by
  rcases s with mode | mode
  · cases mode <;> simp [step]
  · cases mode <;> rfl

theorem exists_step_semicolon (s : Scan) (next : Option Char) :
    ∃ mode, (s.step ';' next).2 = between mode := by
  rcases s with mode | mode
  · cases mode <;> exact ⟨_, by rw [step_semicolon]; rfl⟩
  · cases mode <;> exact ⟨_, rfl⟩

theorem run_semicolon (s : Scan) (xs ys : List Char) :
    s.run (xs ++ ';' :: ys) = s.run (xs ++ [';'])
      ++ (s.through (xs ++ [';'])).run ys := by
  induction xs generalizing s with
  | nil =>
    rw [nil_append, nil_append, run_cons, run_cons, through, through,
      step_semicolon s ys.head?]
    rfl
  | cons x xs ih =>
    have hhead : (xs ++ ';' :: ys).head? = (xs ++ [';']).head? := by cases xs <;> rfl
    rw [cons_append, cons_append, run_cons, run_cons, through, hhead, ih]
    rfl

theorem through_append_semicolon (s : Scan) (xs ys : List Char) :
    s.through (xs ++ ';' :: ys) = (s.through (xs ++ [';'])).through ys := by
  induction xs generalizing s with
  | nil =>
    rw [nil_append, nil_append, through, through, through, step_semicolon s ys.head?]
    rfl
  | cons x xs ih =>
    have hhead : (xs ++ ';' :: ys).head? = (xs ++ [';']).head? := by cases xs <;> rfl
    rw [cons_append, cons_append, through, through, hhead, ih]

theorem exists_through_semicolon (s : Scan) (xs : List Char) :
    ∃ mode, s.through (xs ++ [';']) = between mode := by
  induction xs generalizing s with
  | nil => exact exists_step_semicolon s none
  | cons x xs ih => exact ih _

/-- A literal of the scan has one of the three quotes. -/
def Proper : Scan → Prop
  | between (.literal q) | inside (.literal q) => isQuote q = true
  | _ => True

theorem Proper.step {s : Scan} (h : s.Proper) (c : Char) (next : Option Char) :
    (s.step c next).2.Proper := by
  rcases s with mode | mode
  · cases mode with
    | code =>
      simp only [Scan.step]
      split
      · trivial
      split
      · trivial
      split
      · rename_i hquote
        exact hquote
      · trivial
    | literal q =>
      simp only [Scan.step]
      split
      · exact h
      · split
        · trivial
        · exact h
    | lineComment =>
      simp only [Scan.step]
      split <;> trivial
    | blockComment =>
      simp only [Scan.step]
      split <;> trivial
  · cases mode with
    | literal q => exact h
    | _ => trivial

theorem Proper.through {s : Scan} (h : s.Proper) (cs : List Char) :
    (s.through cs).Proper := by
  induction cs generalizing s with
  | nil => exact h
  | cons c cs ih => exact ih (h.step c cs.head?)

end Scan

/-- Where the line below a text starts. -/
def lineBelow (cs : List Char) : Scan :=
  (Scan.between .code).through (cs ++ ['\n'])

/-- The line below a semicolon starts in the code, in a literal or in a
block comment, and the marks above it are those of the text on its own. -/
theorem marks_lineBelow (xs : List Char) :
    ∃ mode role role', lineBelow (xs ++ [';']) = .between mode ∧ mode ≠ .lineComment
      ∧ (∀ q, mode = .literal q → isQuote q = true)
      ∧ ∀ rest, marks (xs ++ ';' :: '\n' :: ' ' :: rest)
        = marks (xs ++ [';']) ++ ⟨role, '\n'⟩ :: ⟨role', ' '⟩ :: mark mode rest := by
  obtain ⟨mode, hmode⟩ := Scan.exists_through_semicolon (.between .code) xs
  have hproper : (Scan.between mode).Proper :=
    hmode ▸ Scan.Proper.through (s := .between .code) trivial _
  have hbelow : lineBelow (xs ++ [';']) = ((Scan.between mode).step '\n' none).2 := by
    rw [lineBelow, append_assoc, singleton_append, Scan.through_append_semicolon, hmode]
    rfl
  have hmarks : ∀ rest, marks (xs ++ ';' :: '\n' :: ' ' :: rest)
      = marks (xs ++ [';']) ++ (Scan.between mode).run ('\n' :: ' ' :: rest) := by
    intro rest
    simp only [marks, mark_eq_scan]
    rw [Scan.run_semicolon, hmode]
  cases mode with
  | code =>
    refine ⟨.code, .code, .code, by
      rw [hbelow]; rfl, by decide, by rintro q ⟨⟩, fun rest => ?_⟩
    rw [hmarks, mark_eq_scan]
    rfl
  | lineComment =>
    refine ⟨.code, .comment, .code,
      by rw [hbelow]; rfl, by decide, by rintro q ⟨⟩, fun rest => ?_⟩
    rw [hmarks, mark_eq_scan]
    rfl
  | blockComment =>
    refine ⟨.blockComment, .comment, .comment,
      by rw [hbelow]; rfl, by decide, by rintro q ⟨⟩, fun rest => ?_⟩
    rw [hmarks, mark_eq_scan]
    rfl
  | literal q =>
    have hquote : isQuote q = true := hproper
    have hblank : '\n' ≠ q ∧ ' ' ≠ q := by
      constructor <;> rintro rfl <;> cases hquote
    refine ⟨.literal q, .literal, .literal, ?_, by rintro ⟨⟩, ?_, fun rest => ?_⟩
    · simp [hbelow, Scan.step, hblank]
    · rintro _ ⟨⟩
      exact hquote
    · rw [hmarks, mark_eq_scan]
      simp [Scan.step, hblank]

/-! ## Pieces of headers -/

/-- A match with more text behind it. -/
def followedBy {α : Type} (more : List Char) (found : α × List Char) : α × List Char :=
  (found.1, found.2 ++ more)

theorem isPrefixOf?_semicolon {word : List Char} (h : ';' ∉ word) (xs ys : List Char) :
    word.isPrefixOf? (xs ++ ';' :: ys) = (word.isPrefixOf? xs).map (· ++ ';' :: ys) := by
  induction word generalizing xs with
  | nil => rfl
  | cons c word ih =>
    rw [mem_cons, not_or] at h
    cases xs with
    | nil =>
      have hc : (c == ';') = false := beq_eq_false_iff_ne.2 (Ne.symm h.1)
      simp [List.isPrefixOf?, hc]
    | cons x xs =>
      rw [cons_append, List.isPrefixOf?, List.isPrefixOf?, ih h.2]
      split <;> rfl

theorem word?_semicolon {word : String} (h : ';' ∉ word.toList) (xs ys : List Char) :
    word? word (xs ++ ';' :: ys) = (word? word xs).map (· ++ ';' :: ys) :=
  isPrefixOf?_semicolon h xs ys

theorem blanks?_semicolon (xs ys : List Char) :
    blanks? (xs ++ ';' :: ys) = (blanks? xs).map (· ++ ';' :: ys) := by
  have hblank : isBlank ';' = false := by decide
  have hhead : (xs ++ ';' :: ys).head?.any isBlank = xs.head?.any isBlank := by
    cases xs with
    | nil => exact hblank
    | cons x xs => rfl
  rw [blanks?, blanks?, hhead, trimStart_append_cons hblank]
  split <;> rfl

theorem name?_semicolon (xs ys : List Char) :
    name? (xs ++ ';' :: ys) = (name? xs).map (followedBy (';' :: ys)) := by
  have hword : isWord ';' = false := by decide
  cases xs with
  | nil => rfl
  | cons x xs =>
    have hspan :
        ∀ zs : List Char, (zs ++ ';' :: ys).takeWhile (fun c => isWord c || c == '$')
          = zs.takeWhile (fun c => isWord c || c == '$')
        ∧ (zs ++ ';' :: ys).dropWhile (fun c => isWord c || c == '$')
          = zs.dropWhile (fun c => isWord c || c == '$') ++ ';' :: ys := by
      intro zs
      induction zs with
      | nil => simp [hword]
      | cons z zs ih =>
        simp only [cons_append, takeWhile_cons, dropWhile_cons, ih.1, ih.2]
        split <;> simp
    simp only [cons_append, name?, span_eq_takeWhile_dropWhile, hspan xs]
    split <;> rfl

/-! ## Statements -/

/-- Whether a declaration starts is seen before the semicolon. -/
theorem startsDeclaration_semicolon (xs ys : List Char) :
    startsDeclaration (xs ++ ';' :: ys) = startsDeclaration xs := by
  have hstarts : ∀ word ∈ declarationStarts, ';' ∉ word := by decide
  rw [Bool.eq_iff_iff, startsDeclaration, startsDeclaration,
    trimStart_append_cons (by decide), any_eq_true, any_eq_true]
  refine exists_congr fun word => and_congr_right fun hword => ?_
  rw [← isSome_isPrefixOf?_eq_isPrefixOf, ← isSome_isPrefixOf?_eq_isPrefixOf,
    isPrefixOf?_semicolon (hstarts word hword), Option.isSome_map]

/-- Whether a statement ends in front of a semicolon is seen up to there. -/
theorem endsStatement_append {m : Marked} {xs : List Marked}
    (h : (unmark (m :: xs)).getLast? = some ';') (depth : Nat) (ys : List Marked) :
    endsStatement depth m (xs ++ ys) = endsStatement depth m xs := by
  cases xs with
  | nil =>
    have hchar : m.char = ';' := Option.some.inj h
    simp [endsStatement, hchar]
  | cons x xs =>
    have hlast : (unmark (x :: xs)).getLast? = some ';' := h
    obtain ⟨front, hfront⟩ := getLast?_eq_some_iff.1 hlast
    have happend : unmark (x :: xs ++ ys) = front ++ ';' :: unmark ys := by
      rw [unmark_append, hfront, append_assoc, singleton_append]
    rw [endsStatement, endsStatement, happend, hfront, startsDeclaration_semicolon,
      startsDeclaration_semicolon]

theorem statementFrom_prefix (depth : Nat) (afterEquals : Bool) (ms : List Marked) :
    statementFrom depth afterEquals ms <+: unmark ms := by
  induction ms generalizing depth afterEquals with
  | nil => exact prefix_rfl
  | cons m ms ih =>
    rw [statementFrom]
    split
    · exact nil_prefix
    · exact prefix_cons_inj m.char |>.2 (ih _ _)

section Append

variable {depth : Nat} {afterEquals : Bool} {xs : List Marked}
  (hlast : (unmark xs).getLast? = some ';')

include hlast

/-- A statement that has ended stays as it is. -/
theorem statementFrom_of_ended (h : statementFrom depth afterEquals xs ≠ unmark xs)
    (ys : List Marked) :
    statementFrom depth afterEquals (xs ++ ys) = statementFrom depth afterEquals xs := by
  induction xs generalizing depth afterEquals with
  | nil => cases hlast
  | cons x xs ih =>
    rw [cons_append, statementFrom, statementFrom, endsStatement_append hlast]
    rw [statementFrom] at h
    split
    · rfl
    · rename_i hends
      rw [if_neg hends] at h
      cases xs with
      | nil => exact absurd rfl h
      | cons x' xs =>
        have hrest :
            statementFrom (depthAfter depth afterEquals x) (x.char == '=') (x' :: xs)
            ≠ unmark (x' :: xs) :=
          fun heq => h (congrArg (List.cons x.char) heq)
        rw [ih hlast hrest]

/-- One that has not ended goes on. -/
theorem statementFrom_of_unended (h : statementFrom depth afterEquals xs = unmark xs)
    (ys : List Marked) :
    statementFrom depth afterEquals (xs ++ ys)
      = unmark xs ++ statementFrom (depthThrough depth afterEquals xs)
        (endsInEquals afterEquals xs) ys := by
  induction xs generalizing depth afterEquals with
  | nil => cases hlast
  | cons x xs ih =>
    rw [statementFrom] at h
    split at h
    · cases h
    · rename_i hends
      rw [cons_append, statementFrom, endsStatement_append hlast, if_neg hends]
      have hrest := (List.cons.inj h).2
      cases xs with
      | nil => rfl
      | cons x' xs =>
        rw [ih hlast hrest]
        rfl

end Append

theorem exists_marks_semicolon (xs ys : List Char) :
    ∃ ms, marks (xs ++ ';' :: ys) = marks (xs ++ [';']) ++ ms := by
  simp only [marks, mark_eq_scan]
  exact ⟨_, Scan.run_semicolon _ xs ys⟩

theorem getLast?_unmark_marks (xs : List Char) :
    (unmark (marks (xs ++ [';']))).getLast? = some ';' := by
  rw [unmark_marks, getLast?_append, getLast?_singleton, Option.some_or]

theorem statement_of_ended {afterEquals : Bool} {xs : List Char}
    (h : statement afterEquals (xs ++ [';']) ≠ xs ++ [';']) (ys : List Char) :
    statement afterEquals (xs ++ ';' :: ys) = statement afterEquals (xs ++ [';']) := by
  obtain ⟨ms, hms⟩ := exists_marks_semicolon xs ys
  rw [statement, hms]
  exact statementFrom_of_ended (getLast?_unmark_marks xs) (by rwa [unmark_marks]) ms

theorem statement_of_unended {afterEquals : Bool} {xs : List Char}
    (h : statement afterEquals (xs ++ [';']) = xs ++ [';']) (ys : List Char) :
    ∃ more, statement afterEquals (xs ++ ';' :: ys) = xs ++ ';' :: more := by
  obtain ⟨ms, hms⟩ := exists_marks_semicolon xs ys
  have hgoesOn :=
    statementFrom_of_unended (getLast?_unmark_marks xs) (by rwa [unmark_marks]) ms
  rw [unmark_marks, append_assoc, singleton_append] at hgoesOn
  rw [statement, hms]
  exact ⟨_, hgoesOn⟩

/-- A statement that has not ended at its semicolon goes on in the line
below unless a declaration starts there. -/
theorem statement_lineBelow {afterEquals : Bool} {xs : List Char}
    (h : statement afterEquals (xs ++ [';']) = xs ++ [';']) {c : Char}
    {cs : List Char} (hc : c ≠ ';') (hc' : c ≠ '\n')
    (hstarts : startsDeclaration (' ' :: c :: cs) = false) :
    ∃ more, statement afterEquals (xs ++ ';' :: '\n' :: ' ' :: c :: cs)
      = xs ++ ';' :: '\n' :: ' ' :: c :: more := by
  obtain ⟨mode, role, role', -, -, -, hmarks⟩ := marks_lineBelow xs
  have hspace : ∀ depth after, endsStatement depth ⟨role', ' '⟩ after = false := by
    intro depth after
    simp [endsStatement]
  cases hmark : mark mode (c :: cs) with
  | nil =>
    have hunmark := unmark_mark mode (c :: cs)
    rw [hmark] at hunmark
    cases hunmark
  | cons m ms =>
    have hunmark := unmark_mark mode (c :: cs)
    rw [hmark] at hunmark
    have hm : m.char = c := (List.cons.inj hunmark).1
    have hfirst : ∀ depth, endsStatement depth m ms = false := by
      intro depth
      simp [endsStatement, hm, hc, hc']
    have hline : ∀ depth, endsStatement depth ⟨role, '\n'⟩
        (⟨role', ' '⟩ :: m :: ms) = false := by
      intro depth
      have hafter : unmark (⟨role', ' '⟩ :: m :: ms) = ' ' :: c :: cs :=
        congrArg (List.cons ' ') hunmark
      simp [endsStatement, hafter, hstarts]
    have hgoesOn :=
      statementFrom_of_unended (getLast?_unmark_marks xs) (by rwa [unmark_marks])
      (⟨role, '\n'⟩ :: ⟨role', ' '⟩ :: mark mode (c :: cs))
    rw [← hmarks, unmark_marks, append_assoc, singleton_append, hmark, statementFrom,
      hline, if_neg (by decide), statementFrom, hspace, if_neg (by decide),
      statementFrom, hfirst, if_neg (by decide), hm] at hgoesOn
    exact ⟨_, hgoesOn⟩

/-! ## Blocks -/

/-- What follows the first opening brace in the code. -/
def behindBrace? : List Marked → Option (List Marked)
  | [] => none
  | m :: ms => if m.role = .code ∧ m.char = '{' then some ms else behindBrace? ms

/-- The closers that are still due behind a text in which the block has
neither ended nor met a wrong closer. -/
def stillDue? : List Char → List Marked → Option (List Char)
  | pending, [] => some pending
  | pending, m :: ms =>
    match nest? pending m with
    | none | some [] => none
    | some (due :: outer) => stillDue? (due :: outer) ms

theorem text_firstBlock? (ms : List Marked) :
    (firstBlock? '{' ms).map Block.text
      = (behindBrace? ms).bind fun inside => (enclosed? ['}'] inside).map fun found =>
        '{' :: found.1 ++ ['}'] := by
  induction ms with
  | nil => rfl
  | cons m ms ih =>
    rw [firstBlock?, behindBrace?]
    split
    · cases hfound : enclosed? ['}'] ms
        <;> simp [openedBlock?, closerOf?, hfound, Block.text]
    · rw [← ih, Option.map_map]
      rfl

theorem behindBrace?_append (xs ys : List Marked) :
    behindBrace? (xs ++ ys) = ((behindBrace? xs).map (· ++ ys)).or (behindBrace? ys) := by
  induction xs with
  | nil => rfl
  | cons x xs ih =>
    rw [cons_append, behindBrace?, behindBrace?]
    split
    · rfl
    · exact ih

/-- A block that has ended, or that cannot end, stays as it is. -/
theorem enclosed?_append_of_settled {xs : List Marked}
    (h : stillDue? pending xs = none) (ys : List Marked) :
    (enclosed? pending (xs ++ ys)).map Prod.fst
      = (enclosed? pending xs).map Prod.fst := by
  induction xs generalizing pending with
  | nil => cases h
  | cons x xs ih =>
    rw [cons_append, enclosed?, enclosed?]
    rw [stillDue?] at h
    cases hnest : nest? pending x with
    | none => rfl
    | some after =>
      cases after with
      | nil => rfl
      | cons due outer =>
        rw [hnest] at h
        have hrest := congrArg (Option.map (List.cons x.char)) (ih h)
        simpa only [Option.map_map, Function.comp_def] using hrest

/-- One that has not ended goes on. -/
theorem enclosed?_append_of_stillDue? {xs : List Marked}
    (h : stillDue? pending xs = some due) (ys : List Marked) :
    enclosed? pending (xs ++ ys) = (enclosed? due ys).map (extendInner (unmark xs)) := by
  induction xs generalizing pending with
  | nil =>
    obtain rfl := Option.some.inj h
    exact (map_extendInner_nil _).symm
  | cons x xs ih =>
    rw [stillDue?] at h
    cases hnest : nest? pending x with
    | none =>
      rw [hnest] at h
      cases h
    | some after =>
      rw [hnest] at h
      cases after with
      | nil => cases h
      | cons first outer =>
        rw [cons_append, enclosed?, hnest]
        simp only [ih h]
        exact map_extendInner_append [x.char] (unmark xs) _

theorem enclosed?_of_stillDue? {xs : List Marked} (h : stillDue? pending xs = some due) :
    enclosed? pending xs = none := by
  have hend := enclosed?_append_of_stillDue? h []
  rwa [append_nil, enclosed?] at hend

theorem closers_of_nest? {after : List Char} {m : Marked}
    (hpending : ∀ c ∈ pending, isCloser c = true) (h : nest? pending m = some after) :
    ∀ c ∈ after, isCloser c = true := by
  have hopener : ∀ {c closer}, closerOf? c = some closer → isCloser closer = true := by
    intro c closer hcloser
    unfold closerOf? at hcloser
    split at hcloser <;> cases hcloser <;> rfl
  unfold nest? at h
  split at h
  · obtain rfl := Option.some.inj h
    exact hpending
  · split at h
    · rename_i closer hcloser
      obtain rfl := Option.some.inj h
      exact forall_mem_cons.2 ⟨hopener hcloser, hpending⟩
    · split at h
      · cases h
      · obtain rfl := Option.some.inj h
        exact hpending
    · rename_i due outer _
      split at h
      · obtain rfl := Option.some.inj h
        exact hpending
      · split at h
        · obtain rfl := Option.some.inj h
          exact (forall_mem_cons.1 hpending).2
        · cases h

/-- What is still due is never nothing, and it is closers. -/
theorem of_stillDue? {xs : List Marked} (hne : pending ≠ [])
    (hpending : ∀ c ∈ pending, isCloser c = true)
    (h : stillDue? pending xs = some due) :
    due ≠ [] ∧ ∀ c ∈ due, isCloser c = true := by
  induction xs generalizing pending with
  | nil =>
    obtain rfl := Option.some.inj h
    exact ⟨hne, hpending⟩
  | cons x xs ih =>
    rw [stillDue?] at h
    cases hnest : nest? pending x with
    | none =>
      rw [hnest] at h
      cases h
    | some after =>
      rw [hnest] at h
      cases after with
      | nil => cases h
      | cons first outer => exact ih (cons_ne_nil _ _) (closers_of_nest? hpending hnest) h

/-- The closers that are due end the block. -/
theorem exists_enclosed?_closers (hne : due ≠ [])
    (hdue : ∀ c ∈ due, isCloser c = true) (rest : List Marked) :
    ∃ found, enclosed? due (due.map (Marked.mk .code) ++ rest) = some found := by
  induction due with
  | nil => exact absurd rfl hne
  | cons first outer ih =>
    rw [forall_mem_cons] at hdue
    rw [map_cons, cons_append, enclosed?, nest?_closer hdue.1]
    cases outer with
    | nil => exact ⟨_, rfl⟩
    | cons next outer =>
      obtain ⟨found, hfound⟩ := ih (cons_ne_nil _ _) hdue.2
      simp only [hfound]
      exact ⟨_, rfl⟩

theorem nestAll?_lineBelow (role role' : Role) {ms : List Marked}
    (h : nestAll? [] ms = some due) :
    nestAll? [] (⟨role, '\n'⟩ :: ⟨role', ' '⟩ :: ms) = some due := by
  have hline : nest? [] ⟨role, '\n'⟩ = some [] := by cases role <;> rfl
  have hspace : nest? [] ⟨role', ' '⟩ = some [] := by cases role' <;> rfl
  rw [nestAll?, foldlM_cons, hline, Option.bind_eq_bind, Option.bind_some,
    foldlM_cons, hspace]
  exact h

theorem unmark_of_behindBrace? {ms inside : List Marked}
    (h : behindBrace? ms = some inside) :
    ∃ front, unmark ms = front ++ '{' :: unmark inside := by
  induction ms with
  | nil => cases h
  | cons m ms ih =>
    rw [behindBrace?] at h
    split at h
    · rename_i hbrace
      obtain rfl := Option.some.inj h
      exact ⟨[], congrArg (· :: unmark ms) hbrace.2⟩
    · obtain ⟨front, hfront⟩ := ih h
      exact ⟨m.char :: front, congrArg (List.cons m.char) hfront⟩

/-! ## Literals -/

theorem isClosedLiteral_append {quote : Char} {body : List Char} (hquote : quote ≠ '\\')
    (h : ∀ c ∈ body, c ≠ quote ∧ c ≠ '\\') : IsClosedLiteral quote (body ++ [quote]) := by
  refine ⟨by rw [getLast?_append, getLast?_singleton, Option.some_or], fun more => ?_⟩
  induction body with
  | nil => rw [nil_append, singleton_append, literalRest_cons hquote, if_pos rfl]
  | cons c body ih =>
    rw [forall_mem_cons] at h
    rw [cons_append, cons_append, literalRest_cons h.1.2, if_neg h.1.1, ih h.2]

theorem nestAll?_literals (pending cs : List Char) :
    nestAll? pending (cs.map (Marked.mk .literal)) = some pending := by
  induction cs with
  | nil => rfl
  | cons c cs ih =>
    rw [map_cons, nestAll?, foldlM_cons]
    exact ih

theorem behindBrace?_literals (cs : List Char) :
    behindBrace? (cs.map (Marked.mk .literal)) = none := by
  induction cs with
  | nil => rfl
  | cons c cs ih =>
    rw [map_cons, behindBrace?, if_neg fun h => nomatch h.1]
    exact ih

theorem level?_literals (depth : Nat) (afterEquals : Bool) (cs : List Char) :
    level? depth afterEquals (cs.map (Marked.mk .literal)) = some depth := by
  induction cs generalizing afterEquals with
  | nil => rfl
  | cons c cs ih =>
    rw [map_cons, level?]
    exact ih (c == '=')

theorem statementFrom_literals (depth : Nat) (afterEquals : Bool) (cs : List Char) :
    statementFrom depth afterEquals (cs.map (Marked.mk .literal)) = cs := by
  induction cs generalizing afterEquals with
  | nil => rfl
  | cons c cs ih =>
    rw [map_cons, statementFrom]
    exact congrArg (List.cons c) (ih (c == '='))

end Source

end TypedContent

import TypedContent.Proofs.Source.SpacedEntries

/-!
# Lexemes

A text is read from the left, one *lexeme* after the other: a string literal
or a comment is taken as a whole, and anything else is a single character of
the code. The roles that marking gives to characters are those of the
lexemes they lie in (`marks_eq_lexemes`). Marks alone do not tell where one
literal ends and the next one starts, so what is said about literals as
wholes is said about lexemes.

Lexemes are *legible* when each of them is read off in front of the text of
the others. Then the text is read as these lexemes (`lexemes_textOf`), and
the lexemes of every text are legible. Which lexeme is read off depends on
the next character only, and a blank in its place, or nothing, does no harm
(`Lexeme.Precedes.congr`).
-/

namespace TypedContent

namespace Source

open List Text

variable {cs rest : List Char} {t : Lexeme} {ts xs ys : List Lexeme} {c : Char}

inductive Lexeme where
  | code (c : Char)
  /-- A string literal with its quotes. -/
  | literal (text : List Char)
  /-- A comment with the signs around it. -/
  | comment (text : List Char)
deriving DecidableEq, Repr

namespace Lexeme

def text : Lexeme → List Char
  | code c => [c]
  | literal text => text
  | comment text => text

def role : Lexeme → Role
  | code _ => .code
  | literal _ => .literal
  | comment _ => .comment

/-- The characters of a lexeme with their role. -/
def marks (t : Lexeme) : List Marked :=
  t.text.map (Marked.mk t.role)

end Lexeme

/-- The text of lexemes in a row. -/
def textOf (ts : List Lexeme) : List Char :=
  ts.flatMap Lexeme.text

/-- The rest of a line comment, with its line feed, and what follows. -/
def lineRest : List Char → List Char × List Char
  | [] => ([], [])
  | c :: cs => if c = '\n' then ([c], cs) else (c :: (lineRest cs).1, (lineRest cs).2)

/-- The rest of a block comment, with the signs that close it, and what
follows. -/
def blockRest : List Char → List Char × List Char
  | [] => ([], [])
  | '*' :: '/' :: cs => (['*', '/'], cs)
  | c :: cs => (c :: (blockRest cs).1, (blockRest cs).2)

/-- The first lexeme of a text and what follows it. A literal or comment
that is not closed takes all of the text. -/
def lexeme? : List Char → Option (Lexeme × List Char)
  | [] => none
  | '/' :: '/' :: cs => some (.comment ('/' :: '/' :: (lineRest cs).1), (lineRest cs).2)
  | '/' :: '*' :: cs => some (.comment ('/' :: '*' :: (blockRest cs).1), (blockRest cs).2)
  | c :: cs =>
    if isQuote c then some (.literal (c :: (literalRest c cs).1), (literalRest c cs).2)
    else some (.code c, cs)

theorem lineRest_append (cs : List Char) : (lineRest cs).1 ++ (lineRest cs).2 = cs := by
  fun_induction lineRest cs <;> simp_all

theorem blockRest_append (cs : List Char) :
    (blockRest cs).1 ++ (blockRest cs).2 = cs := by
  fun_induction blockRest cs <;> simp_all

theorem text_of_lexeme? (h : lexeme? cs = some (t, rest)) :
    cs = t.text ++ rest ∧ t.text ≠ [] := by
  unfold lexeme? at h
  split at h
  · cases h
  · obtain ⟨rfl, rfl⟩ := Prod.mk.inj (Option.some.inj h)
    simp [Lexeme.text, lineRest_append]
  · obtain ⟨rfl, rfl⟩ := Prod.mk.inj (Option.some.inj h)
    simp [Lexeme.text, blockRest_append]
  · split at h <;> obtain ⟨rfl, rfl⟩ := Prod.mk.inj (Option.some.inj h)
    · simp [Lexeme.text, literalRest_append]
    · simp [Lexeme.text]

theorem length_of_lexeme? (h : lexeme? cs = some (t, rest)) :
    rest.length < cs.length := by
  obtain ⟨rfl, hne⟩ := text_of_lexeme? h
  have hpos := length_pos_of_ne_nil hne
  rw [length_append]
  omega

theorem exists_lexeme? (c : Char) (cs : List Char) :
    ∃ t rest, lexeme? (c :: cs) = some (t, rest) := by
  unfold lexeme?
  split
  · contradiction
  · exact ⟨_, _, rfl⟩
  · exact ⟨_, _, rfl⟩
  · split <;> exact ⟨_, _, rfl⟩

/-- The lexemes of a text. -/
def lexemes (cs : List Char) : List Lexeme :=
  match _hread : lexeme? cs with
  | none => []
  | some (t, rest) => t :: lexemes rest
termination_by cs.length
decreasing_by exact length_of_lexeme? (by assumption)

@[simp] theorem lexemes_nil : lexemes [] = [] := by
  rw [lexemes]
  rfl

theorem lexemes_cons (h : lexeme? cs = some (t, rest)) :
    lexemes cs = t :: lexemes rest := by
  rw [lexemes]
  split
  · rename_i hnone
    rw [h] at hnone
    cases hnone
  · rename_i hsome
    rw [h] at hsome
    obtain ⟨rfl, rfl⟩ := Prod.mk.inj (Option.some.inj hsome)
    rfl

/-- Induction on a text along its lexemes. -/
theorem lexemes_induction {motive : List Char → Prop} (nil : motive [])
    (cons : ∀ {cs rest : List Char} {t : Lexeme}, lexeme? cs = some (t, rest) →
      motive rest → motive cs)
    (cs : List Char) :
    motive cs := by
  induction hlength : cs.length using Nat.strongRecOn generalizing cs with
  | ind n ih =>
    cases cs with
    | nil => exact nil
    | cons c cs =>
      obtain ⟨t, rest, hread⟩ := exists_lexeme? c cs
      exact cons hread (ih rest.length (hlength ▸ length_of_lexeme? hread) rest rfl)

@[simp] theorem textOf_nil : textOf [] = [] := rfl

@[simp] theorem textOf_cons (t : Lexeme) (ts : List Lexeme) :
    textOf (t :: ts) = t.text ++ textOf ts := rfl

@[simp] theorem textOf_append (ts us : List Lexeme) :
    textOf (ts ++ us) = textOf ts ++ textOf us :=
  flatMap_append

theorem textOf_lexemes (cs : List Char) : textOf (lexemes cs) = cs := by
  induction cs using lexemes_induction with
  | nil => simp
  | cons hread ih => rw [lexemes_cons hread, textOf_cons, ih, ← (text_of_lexeme? hread).1]

/-! ## Marks -/

theorem mark_lineRest (cs : List Char) :
    mark .lineComment cs = (lineRest cs).1.map (Marked.mk .comment)
      ++ marks (lineRest cs).2 := by
  fun_induction lineRest cs with
  | case1 => rfl
  | case2 cs => simp [mark, marks]
  | case3 c cs hc ih => simp [mark, hc, ih]

theorem mark_blockRest (cs : List Char) :
    mark .blockComment cs = (blockRest cs).1.map (Marked.mk .comment)
      ++ marks (blockRest cs).2 := by
  fun_induction blockRest cs with
  | case1 => rfl
  | case2 cs => simp [mark, marks]
  | case3 c cs hclose ih =>
    rw [mark]
    · simp [ih]
    · exact hclose

/-- The marks of a text start with those of its first lexeme. -/
theorem marks_of_lexeme? (h : lexeme? cs = some (t, rest)) :
    marks cs = t.marks ++ marks rest := by
  unfold lexeme? at h
  split at h
  · cases h
  · obtain ⟨rfl, rfl⟩ := Prod.mk.inj (Option.some.inj h)
    simp [marks, mark, mark_lineRest, Lexeme.marks, Lexeme.text, Lexeme.role]
  · obtain ⟨rfl, rfl⟩ := Prod.mk.inj (Option.some.inj h)
    simp [marks, mark, mark_blockRest, Lexeme.marks, Lexeme.text, Lexeme.role]
  · rename_i c cs hline hblock
    have hmark : marks (c :: cs)
        = if isQuote c then ⟨.literal, c⟩ :: mark (.literal c) cs
          else ⟨.code, c⟩ :: mark .code cs := by
      rw [marks, mark]
      · exact hline
      · exact hblock
    rw [hmark]
    split at h <;> obtain ⟨rfl, rfl⟩ := Prod.mk.inj (Option.some.inj h)
    · rename_i hquote
      rw [if_pos hquote, mark_literalRest]
      rfl
    · rename_i hquote
      rw [if_neg hquote]
      rfl

/-- The marks of lexemes in a row. -/
def marksOf (ts : List Lexeme) : List Marked :=
  ts.flatMap Lexeme.marks

@[simp] theorem marksOf_nil : marksOf [] = [] := rfl

@[simp] theorem marksOf_cons (t : Lexeme) (ts : List Lexeme) :
    marksOf (t :: ts) = t.marks ++ marksOf ts := rfl

@[simp] theorem marksOf_append (ts us : List Lexeme) :
    marksOf (ts ++ us) = marksOf ts ++ marksOf us :=
  flatMap_append

theorem unmark_marksOf (ts : List Lexeme) : unmark (marksOf ts) = textOf ts := by
  induction ts with
  | nil => rfl
  | cons t ts ih =>
    rw [marksOf_cons, unmark_append, ih, Lexeme.marks, unmark, map_map]
    exact congrArg (· ++ textOf ts) (map_id _)

/-- Every character has the role of the lexeme it lies in. -/
theorem marks_eq_lexemes (cs : List Char) : marks cs = marksOf (lexemes cs) := by
  induction cs using lexemes_induction with
  | nil => simp
  | cons hread ih => rw [marks_of_lexeme? hread, ih, lexemes_cons hread, marksOf_cons]

/-- A character that is marked as code is a lexeme. -/
theorem exists_of_marksOf_eq {before after : List Marked}
    (h : marksOf ts = before ++ ⟨.code, c⟩ :: after) :
    ∃ xs ys, ts = xs ++ .code c :: ys ∧ marksOf xs = before ∧ marksOf ys = after := by
  induction ts generalizing before with
  | nil => cases before <;> cases h
  | cons t ts ih =>
    rw [marksOf_cons] at h
    rcases append_eq_append_iff.1 h with ⟨middle, rfl, hts⟩ | ⟨middle, ht, hafter⟩
    · obtain ⟨xs, ys, rfl, rfl, rfl⟩ := ih hts
      exact ⟨t :: xs, ys, rfl, rfl, rfl⟩
    · cases middle with
      | nil =>
        have hts : marksOf ts = [] ++ ⟨.code, c⟩ :: after := hafter.symm
        obtain ⟨xs, ys, rfl, hxs, rfl⟩ := ih hts
        rw [append_nil] at ht
        exact ⟨t :: xs, ys, rfl, by rw [marksOf_cons, hxs, ht, append_nil], rfl⟩
      | cons m middle =>
        obtain ⟨rfl, rfl⟩ := List.cons.inj hafter
        -- the lexeme holds a character of the code, so it is that character
        have hmem : (⟨.code, c⟩ : Marked) ∈ t.marks :=
          ht ▸ mem_append_right _ mem_cons_self
        obtain ⟨d, -, hd⟩ := mem_map.1 hmem
        obtain ⟨hrole, rfl⟩ := Marked.mk.inj hd
        cases t with
        | literal text => cases hrole
        | comment text => cases hrole
        | code e =>
          have hsingle : [⟨.code, e⟩] = before ++ ⟨.code, d⟩ :: middle := ht
          obtain ⟨rfl, hcons⟩ :
              before = [] ∧ [(⟨.code, e⟩ : Marked)] = ⟨.code, d⟩ :: middle := by
            cases before with
            | nil => exact ⟨rfl, hsingle⟩
            | cons x before => exact absurd (List.cons.inj hsingle).2.symm (by simp)
          obtain ⟨hmark, rfl⟩ := List.cons.inj hcons
          obtain ⟨-, rfl⟩ := Marked.mk.inj hmark
          exact ⟨[], ts, rfl, rfl, rfl⟩

/-- The places at which the marks of a text are cut at a character of the
code. -/
theorem marks_eq_append_iff {before after : List Marked} :
    marks cs = before ++ ⟨.code, c⟩ :: after
      ↔ ∃ xs ys, lexemes cs = xs ++ .code c :: ys ∧ marksOf xs = before
        ∧ marksOf ys = after := by
  rw [marks_eq_lexemes]
  constructor
  · exact exists_of_marksOf_eq
  · rintro ⟨xs, ys, hts, rfl, rfl⟩
    rw [hts, marksOf_append]
    rfl

/-! ## Legible lexemes -/

/-- The lexeme is the first one of a text that goes on with `rest`. -/
def Lexeme.Precedes (t : Lexeme) (rest : List Char) : Prop :=
  lexeme? (t.text ++ rest) = some (t, rest)

/-- Each of the lexemes is read off in front of the text of those behind
it. -/
def Legible : List Lexeme → Prop
  | [] => True
  | t :: ts => t.Precedes (textOf ts) ∧ Legible ts

theorem precedes_of_lexeme? (h : lexeme? cs = some (t, rest)) : t.Precedes rest := by
  rw [Lexeme.Precedes, ← (text_of_lexeme? h).1, h]

theorem legible_lexemes (cs : List Char) : Legible (lexemes cs) := by
  induction cs using lexemes_induction with
  | nil => simp [Legible]
  | @cons cs rest t hread ih =>
    rw [lexemes_cons hread]
    refine ⟨?_, ih⟩
    rw [textOf_lexemes]
    exact precedes_of_lexeme? hread

/-- A text is read as the lexemes it is made of. -/
theorem lexemes_textOf (h : Legible ts) : lexemes (textOf ts) = ts := by
  induction ts with
  | nil => simp
  | cons t ts ih => rw [textOf_cons, lexemes_cons h.1, ih h.2]

/-- A character is a lexeme if it opens neither a literal nor a comment. -/
theorem precedes_code_iff :
    (Lexeme.code c).Precedes rest
      ↔ isQuote c = false
        ∧ (c = '/' → rest.head? ≠ some '/' ∧ rest.head? ≠ some '*') := by
  show lexeme? (c :: rest) = _ ↔ _
  unfold lexeme?
  split
  · contradiction
  · rename_i hcs
    obtain ⟨rfl, rfl⟩ := List.cons.inj hcs
    simp
  · rename_i hcs
    obtain ⟨rfl, rfl⟩ := List.cons.inj hcs
    simp
  · rename_i d cs hline hblock hcs
    obtain ⟨rfl, rfl⟩ := List.cons.inj hcs
    have hnext : c = '/' → rest.head? ≠ some '/' ∧ rest.head? ≠ some '*' := by
      rintro rfl
      cases rest with
      | nil => simp
      | cons d rest => exact ⟨fun hd => hline rest rfl (by rw [Option.some.inj hd]),
          fun hd => hblock rest rfl (by rw [Option.some.inj hd])⟩
    split <;> simp_all

theorem lexeme?_literal {quote : Char} (hquote : isQuote quote = true) (cs : List Char) :
    lexeme? (quote :: cs) = some (.literal (quote :: (literalRest quote cs).1),
      (literalRest quote cs).2) := by
  have hslash : quote ≠ '/' := by
    rintro rfl
    cases hquote
  rw [lexeme?]
  · rw [if_pos hquote]
  · exact fun _ h => absurd h hslash
  · exact fun _ h => absurd h hslash

/-- A literal starts with a quote and ends where it is closed, or with the
text. -/
theorem exists_of_precedes_literal {text : List Char}
    (h : (Lexeme.literal text).Precedes rest) :
    ∃ quote body, text = quote :: body ∧ isQuote quote = true
      ∧ literalRest quote (body ++ rest) = (body, rest) := by
  unfold Lexeme.Precedes lexeme? at h
  split at h
  · cases h
  · cases h
  · cases h
  · rename_i quote cs hline hblock hcs
    split at h
    · rename_i hquote
      obtain ⟨htext, rfl⟩ := Prod.mk.inj (Option.some.inj h)
      obtain rfl := Lexeme.literal.inj htext
      exact ⟨quote, _, rfl, hquote, by rw [literalRest_append]⟩
    · cases h

/-- A comment starts with one of two pairs of signs, and ends where it is
closed, or with the text. -/
theorem exists_of_precedes_comment {text : List Char}
    (h : (Lexeme.comment text).Precedes rest) :
    (∃ body, text = '/' :: '/' :: body ∧ lineRest (body ++ rest) = (body, rest))
      ∨ ∃ body, text = '/' :: '*' :: body ∧ blockRest (body ++ rest) = (body, rest) := by
  unfold Lexeme.Precedes lexeme? at h
  split at h
  · cases h
  · obtain ⟨htext, rfl⟩ := Prod.mk.inj (Option.some.inj h)
    obtain rfl := Lexeme.comment.inj htext
    exact .inl ⟨_, rfl, by rw [lineRest_append]⟩
  · obtain ⟨htext, rfl⟩ := Prod.mk.inj (Option.some.inj h)
    obtain rfl := Lexeme.comment.inj htext
    exact .inr ⟨_, rfl, by rw [blockRest_append]⟩
  · split at h <;> cases h

theorem lineRest_of_closed (h : (lineRest cs).2 ≠ []) :
    (lineRest cs).1.getLast? = some '\n'
      ∧ ∀ more, lineRest ((lineRest cs).1 ++ more) = ((lineRest cs).1, more) := by
  fun_induction lineRest cs with
  | case1 => exact absurd rfl h
  | case2 cs => exact ⟨rfl, fun more => by simp [lineRest]⟩
  | case3 c cs hc ih =>
    obtain ⟨hends, hmore⟩ := ih h
    refine ⟨by rw [getLast?_cons, hends]; rfl, fun more => ?_⟩
    rw [cons_append, lineRest, if_neg hc, hmore]

theorem blockRest_of_closed (h : (blockRest cs).2 ≠ []) :
    (blockRest cs).1.getLast? = some '/'
      ∧ ∀ more, blockRest ((blockRest cs).1 ++ more) = ((blockRest cs).1, more) := by
  fun_induction blockRest cs with
  | case1 => exact absurd rfl h
  | case2 cs => exact ⟨rfl, fun more => rfl⟩
  | case3 c cs hclose ih =>
    obtain ⟨hends, hmore⟩ := ih h
    refine ⟨by rw [getLast?_cons, hends]; rfl, fun more => ?_⟩
    -- the sign behind an asterisk is that of the text, which does not close
    -- the comment
    have hnext : ∀ rest, c = '*' → (blockRest cs).1 ++ more = '/' :: rest → False := by
      intro rest hc hrest
      cases hbody : (blockRest cs).1 with
      | nil =>
        rw [hbody] at hends
        cases hends
      | cons d body =>
        have hcs := blockRest_append cs
        rw [hbody] at hcs hrest
        obtain ⟨rfl, -⟩ := List.cons.inj hrest
        exact hclose _ hc hcs.symm
    rw [cons_append, blockRest, hmore]
    exact hnext

/-- A literal or comment that something follows is closed: it is read off in
front of any text, and it does not end in an equals sign. -/
theorem Lexeme.Precedes.of_closed (h : t.Precedes rest) (hrole : t.role ≠ .code)
    (hrest : rest ≠ []) :
    (∀ more, t.Precedes more) ∧ t.text.getLast? ≠ some '=' := by
  cases t with
  | code c => exact absurd rfl hrole
  | literal text =>
    obtain ⟨quote, body, rfl, hquote, hread⟩ := exists_of_precedes_literal h
    have hclosed : IsClosedLiteral quote (literalRest quote (body ++ rest)).1 :=
      isClosedLiteral_of_literalRest (by rwa [hread])
    rw [hread] at hclosed
    constructor
    · intro more
      show lexeme? (quote :: (body ++ more)) = _
      rw [lexeme?_literal hquote, hclosed.rest]
    · show (quote :: body).getLast? ≠ _
      rw [getLast?_cons, hclosed.ends]
      rintro ⟨⟩
      cases hquote
  | comment text =>
    rcases exists_of_precedes_comment h with ⟨body, rfl, hread⟩ | ⟨body, rfl, hread⟩
    · obtain ⟨hends, hmore⟩ := @lineRest_of_closed (body ++ rest) (by rwa [hread])
      rw [hread] at hends hmore
      constructor
      · intro more
        show lexeme? ('/' :: '/' :: (body ++ more)) = _
        rw [lexeme?, hmore]
      · simp [Lexeme.text, getLast?_cons, hends]
    · obtain ⟨hends, hmore⟩ := @blockRest_of_closed (body ++ rest) (by rwa [hread])
      rw [hread] at hends hmore
      constructor
      · intro more
        show lexeme? ('/' :: '*' :: (body ++ more)) = _
        rw [lexeme?, hmore]
      · simp [Lexeme.text, getLast?_cons, hends]

/-- The text behind a lexeme may be exchanged for one that starts in the
same way, for one that starts with a space, or for nothing. At the end of a
text a literal or comment may be open, so nothing may follow where nothing
did. -/
theorem Lexeme.Precedes.congr {rest' : List Char} (h : t.Precedes rest)
    (hend : rest = [] → rest' = [])
    (hhead : rest'.head? = rest.head? ∨ rest'.head? = some ' ' ∨ rest'.head? = none) :
    t.Precedes rest' := by
  by_cases hrole : t.role = .code
  · cases t with
    | literal text => cases hrole
    | comment text => cases hrole
    | code c =>
      rw [precedes_code_iff] at h ⊢
      refine ⟨h.1, fun hc => ?_⟩
      rcases hhead with hhead | hhead | hhead <;> rw [hhead]
      · exact h.2 hc
      · decide
      · simp
  · by_cases hrest : rest = []
    · rwa [hend hrest, ← hrest]
    · exact (h.of_closed hrole hrest).1 rest'

/-- A blank behind the lexeme is no part of it: a literal has its closing
quote, and a comment its end. -/
def Lexeme.IsClosed (t : Lexeme) : Prop :=
  t.Precedes [' ']

/-- A closed lexeme is read off in front of any text, unless a slash gets
what makes it a comment. -/
theorem Lexeme.IsClosed.precedes (h : t.IsClosed)
    (hrest : t = .code '/' → rest.head? ≠ some '/' ∧ rest.head? ≠ some '*') :
    t.Precedes rest := by
  by_cases hrole : t.role = .code
  · cases t with
    | literal text => cases hrole
    | comment text => cases hrole
    | code c => exact precedes_code_iff.2 ⟨(precedes_code_iff.1 h).1,
      fun hc => hrest (by rw [hc])⟩
  · exact (Lexeme.Precedes.of_closed h hrole (cons_ne_nil _ _)).1 rest

theorem Lexeme.IsClosed.getLast?_ne (h : t.IsClosed) (hrole : t.role ≠ .code) :
    t.text.getLast? ≠ some '=' :=
  (Lexeme.Precedes.of_closed h hrole (cons_ne_nil _ _)).2

namespace Legible

theorem text_ne_nil (h : Legible ts) : ∀ t ∈ ts, t.text ≠ [] := by
  induction ts with
  | nil => simp
  | cons t ts ih => exact forall_mem_cons.2 ⟨(text_of_lexeme? h.1).2, ih h.2⟩

theorem of_append_right (h : Legible (xs ++ ys)) : Legible ys := by
  induction xs with
  | nil => exact h
  | cons x xs ih => exact ih h.2

/-- What follows the text of legible lexemes may be cut off. -/
theorem of_append_left (h : Legible (xs ++ ys)) : Legible xs := by
  induction xs with
  | nil => trivial
  | cons x xs ih =>
    obtain ⟨hx, hxs⟩ : x.Precedes (textOf (xs ++ ys)) ∧ Legible (xs ++ ys) := h
    rw [textOf_append] at hx
    refine ⟨hx.congr (fun hnil => (append_eq_nil_iff.1 hnil).1) ?_, ih hxs⟩
    cases xs with
    | nil => exact .inr (.inr rfl)
    | cons u us =>
      have hu : u.text ≠ [] := hxs.text_ne_nil u mem_cons_self
      obtain ⟨c, cs, hcs⟩ := exists_cons_of_ne_nil hu
      exact .inl (by simp [hcs])

/-- Lexemes that something follows are closed. -/
theorem isClosed (h : Legible (xs ++ ys)) (hys : ys ≠ []) : ∀ x ∈ xs, x.IsClosed := by
  induction xs with
  | nil => simp
  | cons x xs ih =>
    obtain ⟨hx, hxs⟩ : x.Precedes (textOf (xs ++ ys)) ∧ Legible (xs ++ ys) := h
    have hrest : textOf (xs ++ ys) ≠ [] := by
      obtain ⟨y, ys, rfl⟩ := exists_cons_of_ne_nil hys
      have hy : y.text ≠ [] := hxs.text_ne_nil y (mem_append_right _ mem_cons_self)
      simp [hy]
    exact forall_mem_cons.2
      ⟨hx.congr (fun hnil => absurd hnil hrest) (.inr (.inl rfl)), ih hxs⟩

/-- Literals and comments that something follows do not end in an equals
sign. -/
theorem getLast?_ne (h : Legible (xs ++ ys)) (hys : ys ≠ []) :
    ∀ x ∈ xs, x.role ≠ .code → x.text.getLast? ≠ some '=' :=
  fun x hx hrole => (h.isClosed hys x hx).getLast?_ne hrole

end Legible

/-- A stretch of a marked text between two characters of the code is marked
in the same way on its own. -/
theorem Lexed.cut {xs ys : List Marked} (h : Lexed (xs ++ ⟨.code, c⟩ :: ys)) :
    Lexed xs ∧ Lexed ys := by
  obtain ⟨us, vs, hlexemes, rfl, rfl⟩ := marks_eq_append_iff.1 h
  have hlegible : Legible (us ++ .code c :: vs) := hlexemes ▸ legible_lexemes _
  have hlexed : ∀ {ts : List Lexeme}, Legible ts → Lexed (marksOf ts) :=
    fun {ts} hts => by
    rw [Lexed, unmark_marksOf, marks_eq_lexemes, lexemes_textOf hts]
  exact ⟨hlexed hlegible.of_append_left, hlexed hlegible.of_append_right.2⟩

end Source

end TypedContent

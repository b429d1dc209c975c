import TypedContent.Text.Basic

/-!
# Marked source text

Declaration text is read without a grammar. All that matters is which
characters are *code* and which belong to a string literal or a comment, so
that brackets and separators inside those never count. `mark` labels every
character with its role; the labelled text has the length and the order of
the text itself, and `unmark_mark` says that dropping the labels gives it
back.

A literal runs to its closing quote, with a backslash escaping one
character; a line comment runs through its line feed; a literal or comment
that is never closed runs to the end of the text.

Type texts copied into the output are *squashed*: comments go, and every run
of blanks and comments between two tokens becomes a single space. String
literals keep their blanks.
-/

namespace TypedContent

namespace Source

/-- What a character of a source text is part of. -/
inductive Role where
  | code
  | literal
  | comment
deriving DecidableEq, Repr

structure Marked where
  role : Role
  char : Char
deriving DecidableEq, Repr

/-- What the next character continues. -/
inductive Mode where
  | code
  | literal (quote : Char)
  | lineComment
  | blockComment
deriving DecidableEq, Repr

/-- The three quotes: single, double and back quote. -/
def isQuote (c : Char) : Bool :=
  c == '\'' || c == '"' || c == '\x60'

/-- Label every character with its role, starting in `mode`. -/
def mark : Mode → List Char → List Marked
  | _, [] => []
  | .code, '/' :: '/' :: cs => ⟨.comment, '/'⟩ :: ⟨.comment, '/'⟩ :: mark .lineComment cs
  | .code, '/' :: '*' :: cs => ⟨.comment, '/'⟩ :: ⟨.comment, '*'⟩ :: mark .blockComment cs
  | .code, c :: cs =>
    if isQuote c then ⟨.literal, c⟩ :: mark (.literal c) cs
      else ⟨.code, c⟩ :: mark .code cs
  | .literal q, '\\' :: c :: cs =>
    ⟨.literal, '\\'⟩ :: ⟨.literal, c⟩ :: mark (.literal q) cs
  | .literal q, c :: cs => ⟨.literal, c⟩ :: mark (if c = q then .code else .literal q) cs
  | .lineComment, c :: cs =>
    ⟨.comment, c⟩ :: mark (if c = '\n' then .code else .lineComment) cs
  | .blockComment, '*' :: '/' :: cs => ⟨.comment, '*'⟩ :: ⟨.comment, '/'⟩ :: mark .code cs
  | .blockComment, c :: cs => ⟨.comment, c⟩ :: mark .blockComment cs

/-- The marked form of a text that starts as code. -/
def marks (cs : List Char) : List Marked :=
  mark .code cs

/-- The text of a marked text. -/
def unmark (ms : List Marked) : List Char :=
  ms.map Marked.char

/-- The rest of a literal whose opening `quote` has been read, with its
closing quote, and what follows. -/
def literalRest (quote : Char) : List Char → List Char × List Char
  | [] => ([], [])
  | '\\' :: c :: cs =>
    let (body, rest) := literalRest quote cs
    ('\\' :: c :: body, rest)
  | c :: cs =>
    if c = quote then ([c], cs)
    else
      let (body, rest) := literalRest quote cs
      (c :: body, rest)

theorem unmark_mark (mode : Mode) (cs : List Char) : unmark (mark mode cs) = cs := by
  fun_induction mark mode cs <;> simp_all [unmark]

theorem unmark_marks (cs : List Char) : unmark (marks cs) = cs :=
  unmark_mark .code cs

theorem literalRest_append (quote : Char) (cs : List Char) :
    (literalRest quote cs).1 ++ (literalRest quote cs).2 = cs := by
  fun_induction literalRest quote cs <;> simp_all

/-! ## Squashed text -/

/-- A comment or a blank in the code: what may be dropped between two
tokens. -/
def Marked.isGap (m : Marked) : Bool :=
  m.role == .comment || (m.role == .code && Text.isBlank m.char)

/-- The maximal runs without a gap. -/
def runs (cs : List Char) : List (List Marked) :=
  ((marks cs).splitOnP Marked.isGap).filter (· ≠ [])

/-- The runs of a text with single spaces between them. -/
def squash (cs : List Char) : List Char :=
  [' '].intercalate ((runs cs).map unmark)

/-- Drop the blanks and comments in front of the first token. -/
def dropGap (cs : List Char) : List Char :=
  unmark ((marks cs).dropWhile Marked.isGap)

/-- `squash` of a string. -/
def squashed (s : String) : String :=
  String.ofList (squash s.toList)

end Source

end TypedContent

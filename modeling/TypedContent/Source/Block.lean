import TypedContent.Source.Mark
import TypedContent.Text.Basic

/-!
# Bracketed blocks

The text between an opening bracket and its partner. Braces, square brackets
and parentheses nest; each must be closed by its own kind, and the first
closer of another kind makes the block unreadable. Angle brackets are not
brackets here: they are only told from comparison signs by `Source.Parts`.
-/

namespace TypedContent

namespace Source

/-- The closing partner of an opening bracket. -/
def closerOf? : Char → Option Char
  | '{' => some '}'
  | '[' => some ']'
  | '(' => some ')'
  | _ => none

def isCloser (c : Char) : Bool :=
  c == '}' || c == ']' || c == ')'

/-- The closers still due after one more character, the innermost first. A
closer that is not the one due has no place in a well nested text. -/
def nest? (pending : List Char) (m : Marked) : Option (List Char) :=
  if m.role ≠ .code then some pending
  else
    match closerOf? m.char, pending with
    | some closer, _ => some (closer :: pending)
    | none, [] => if isCloser m.char then none else some []
    | none, due :: outer =>
      if !isCloser m.char then some pending
      else if due = m.char then some outer
      else none

/-- The text up to the closer that leaves none of the non-empty `pending`
due, and the text after it. -/
def enclosed? : List Char → List Marked → Option (List Char × List Char)
  | _, [] => none
  | pending, m :: ms =>
    match nest? pending m with
    | none => none
    | some [] => some ([], unmark ms)
    | some (due :: outer) =>
      (enclosed? (due :: outer) ms).map fun (inner, after) => (m.char :: inner, after)

/-- A bracketed region of a text. -/
structure Block where
  /-- The text before the opening bracket. -/
  before : List Char
  opener : Char
  /-- The text between the brackets. -/
  inner : List Char
  closer : Char
  /-- The text after the closing bracket. -/
  after : List Char
deriving DecidableEq, Repr

/-- The block with its brackets. -/
def Block.text (b : Block) : List Char :=
  b.opener :: b.inner ++ [b.closer]

/-- Byte offset of the opening bracket. -/
def Block.start (b : Block) : Nat :=
  Text.byteLength b.before

/-- Byte offset just past the closing bracket. -/
def Block.stop (b : Block) : Nat :=
  b.start + Text.byteLength b.text

/-- The block that the bracket `opener` opens, given the marked text after
it. -/
def openedBlock? (opener : Char) (ms : List Marked) : Option Block := do
  let closer ← closerOf? opener
  let (inner, after) ← enclosed? [closer] ms
  return { before := [], opener, inner, closer, after }

/-- The block opened by the first `opener` among the code characters. -/
def firstBlock? (opener : Char) : List Marked → Option Block
  | [] => none
  | m :: ms =>
    if m.role = .code ∧ m.char = opener then openedBlock? opener ms
    else (firstBlock? opener ms).map fun b => { b with before := m.char :: b.before }

/-- The block opened by the first `opener` of a text that is neither in a
literal nor in a comment. -/
def block? (opener : Char) (cs : List Char) : Option Block :=
  firstBlock? opener (marks cs)

/-- Byte offset of the partner of the bracket at byte offset `start`. -/
def closeOffset? (cs : List Char) (start : Nat) : Option Nat := do
  match ← Text.suffixAt? start cs with
  | [] => none
  | c :: rest =>
    let b ← openedBlock? c (marks rest)
    return start + b.stop - Text.byteLength [b.closer]

/-- The first block at or after byte offset `start`; offsets in it count
from the beginning of the text. -/
def blockFrom? (cs : List Char) (start : Nat) (opener : Char) : Option Block :=
  (block? opener (Text.dropBytes start cs)).map fun b =>
    { b with before := Text.takeBytes start cs ++ b.before }

end Source

end TypedContent

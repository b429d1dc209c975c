import TypedContent.Source.Mark
import TypedContent.Text.Basic

/-!
# Parts and statements

A text is cut at separators that stand at *nesting depth* zero. Besides the
brackets, angle brackets nest here, because type arguments are full of
separators; the sign that ends an arrow `=>` does not close one. Surplus
closers are ignored, so the depth never falls below zero.
-/

namespace TypedContent

namespace Source

def opensNesting (c : Char) : Bool :=
  c == '{' || c == '[' || c == '(' || c == '<'

def closesNesting (c : Char) : Bool :=
  c == '}' || c == ']' || c == ')' || c == '>'

/-- The nesting depth after a character. `afterEquals` tells that an equals
sign stands right before it. -/
def depthAfter (depth : Nat) (afterEquals : Bool) (m : Marked) : Nat :=
  if m.role ≠ .code then depth
  else if opensNesting m.char then depth + 1
  else if closesNesting m.char && !(m.char == '>' && afterEquals) then depth - 1
  else depth

/-- Whether a character cuts the text: a separator in the code at depth
zero. Brackets never do. -/
def isCut (separators : List Char) (depth : Nat) (m : Marked) : Bool :=
  m.role == .code && depth == 0 && separators.contains m.char
    && !opensNesting m.char && !closesNesting m.char

/-- Put a character in front of the first segment. -/
def consSegment (c : Char) : List (List Char) → List (List Char)
  | [] => [[c]]
  | segment :: segments => (c :: segment) :: segments

/-- The segments between the cuts, as they stand in the text. -/
def segmentsFrom (separators : List Char) : Nat → Bool → List Marked → List (List Char)
  | _, _, [] => [[]]
  | depth, afterEquals, m :: ms =>
    if isCut separators depth m then []
      :: segmentsFrom separators depth (m.char == '=') ms
    else
      consSegment m.char
        (segmentsFrom separators (depthAfter depth afterEquals m) (m.char == '=') ms)

def segments (separators cs : List Char) : List (List Char) :=
  segmentsFrom separators 0 false (marks cs)

/-- The trimmed segments between the top-level separators, without the empty
ones. -/
def parts (separators cs : List Char) : List (List Char) :=
  ((segments separators cs).map Text.trim).filter (· ≠ [])

/-! ## Statements -/

/-- What a line that opens another declaration starts with. -/
def declarationStarts : List (List Char) :=
  ["export ", "interface ", "type ", "declare ", "const "].map String.toList

def startsDeclaration (cs : List Char) : Bool :=
  declarationStarts.any (·.isPrefixOf (Text.trimStart cs))

/-- Whether a statement ends right before the character `m`, which `after`
follows. -/
def endsStatement (depth : Nat) (m : Marked) (after : List Marked) : Bool :=
  m.role == .code && depth == 0
    && (m.char == ';' || (m.char == '\n' && startsDeclaration (unmark after)))

def statementFrom : Nat → Bool → List Marked → List Char
  | _, _, [] => []
  | depth, afterEquals, m :: ms =>
    if endsStatement depth m ms then []
    else m.char :: statementFrom (depthAfter depth afterEquals m) (m.char == '=') ms

/-- The statement at the start of a text: what stands before the first
semicolon at depth zero or before a line break at depth zero that another
declaration follows. `afterEquals` is about the character before the
text. -/
def statement (afterEquals : Bool) (cs : List Char) : List Char :=
  statementFrom 0 afterEquals (marks cs)

/-- Byte offset at which the statement starting at byte offset `start`
ends. -/
def statementEnd (cs : List Char) (start : Nat) : Nat :=
  let before := Text.takeBytes start cs
  Text.byteLength before
    + Text.byteLength (statement (before.getLast? == some '=') (Text.dropBytes start cs))

end Source

end TypedContent

import TypedContent.Text.Basic
import TypedContent.Text.Word

/-!
# Header patterns

Declaration headers are found by their shape in the raw text, comments and
literals included. A pattern is tried at every place from the left; where it
matches, the search goes on behind the match, so that matches never overlap.
-/

namespace TypedContent

namespace Source

/-- A pattern looks at the character before a place and at the text from
there on. It gives what it found and the text behind the match. -/
abbrev Pattern (α : Type) := Option Char → List Char → Option (α × List Char)

namespace Pattern

variable {α : Type}

/-- The matches in a text with what follows each. The next `skip` characters
belong to the last match, and `before` is the character in front of the
text. -/
def matchesFrom (p : Pattern α) : Nat → Option Char → List Char → List (α × List Char)
  | _, _, [] => []
  | skip + 1, _, c :: cs => matchesFrom p skip (some c) cs
  | 0, before, c :: cs =>
    match p before (c :: cs) with
    | some (found, rest) =>
      (found, rest) :: matchesFrom p (cs.length - rest.length) (some c) cs
    | none => matchesFrom p 0 (some c) cs

/-- The matches in a text, from the left, with what follows each. -/
def found (p : Pattern α) (cs : List Char) : List (α × List Char) :=
  matchesFrom p 0 none cs

end Pattern

/-! ## Pieces of patterns -/

/-- The text behind a given beginning. -/
def word? (word : String) (cs : List Char) : Option (List Char) :=
  word.toList.isPrefixOf? cs

/-- The text behind one blank or more. -/
def blanks? (cs : List Char) : Option (List Char) :=
  if cs.head?.any Text.isBlank then some (Text.trimStart cs) else none

/-- The text behind one character. -/
def char? (c : Char) : List Char → Option (List Char)
  | [] => none
  | d :: cs => if d = c then some cs else none

/-- The longest non-empty beginning in a class of characters. -/
def run? (p : Char → Bool) (cs : List Char) : Option (List Char × List Char) :=
  let (run, rest) := cs.span p
  if run = [] then none else some (run, rest)

/-- A name: an ASCII letter, low line or dollar sign, and then word
characters and dollar signs. -/
def name? : List Char → Option (List Char × List Char)
  | [] => none
  | c :: cs =>
    if c.isAlpha || c == '_' || c == '$' then
      let (rest, after) := cs.span fun c => Text.isWord c || c == '$'
      some (c :: rest, after)
    else none

end Source

end TypedContent

/-!
# Texts

What is done with texts everywhere: blanks are trimmed, a text is cut at
separators or into lines, texts are joined and indented, numerals are read
and written, and positions are counted in bytes.

A character is *blank* when it has the Unicode property `White_Space`.
Trimming, squashing and every `blank` run of a declaration header use this
one class, so the no-break space and the ideographic space count, while the
zero width space and the byte order mark do not.

Positions in a text are counted in bytes of its UTF-8 form. Texts are
scanned character by character, so an offset is the measure `byteLength` of
what stands before it; an offset that falls inside a character is taken as
the next character's.
-/

namespace TypedContent

namespace Text

/-! ## Blanks -/

/-- The 25 characters of the property `White_Space`. -/
def isBlank (c : Char) : Bool :=
  let n := c.toNat
  (9 ≤ n && n ≤ 13) || n == 0x20 || n == 0x85 || n == 0xA0 || n == 0x1680
    || (0x2000 ≤ n && n ≤ 0x200A) || n == 0x2028 || n == 0x2029 || n == 0x202F
    || n == 0x205F || n == 0x3000

def trimStart (cs : List Char) : List Char :=
  cs.dropWhile isBlank

def trimEnd (cs : List Char) : List Char :=
  (cs.reverse.dropWhile isBlank).reverse

/-- Drop the blank characters at both ends. -/
def trim (cs : List Char) : List Char :=
  trimEnd (trimStart cs)

/-- `trim` of a string. -/
def trimmed (s : String) : String :=
  String.ofList (trim s.toList)

/-! ## Cutting -/

/-- What stands before and after the first occurrence of `sep`. -/
def cutAt? (sep : List Char) : List Char → Option (List Char × List Char)
  | [] => if sep = [] then some ([], []) else none
  | c :: cs =>
    match sep.isPrefixOf? (c :: cs) with
    | some rest => some ([], rest)
    | none => (cutAt? sep cs).map fun (before, after) => (c :: before, after)

/-- What stands before and after the last occurrence of the character
`sep`. -/
def cutAtLast? (sep : Char) : List Char → Option (List Char × List Char)
  | [] => none
  | c :: cs =>
    match cutAtLast? sep cs with
    | some (before, after) => some (c :: before, after)
    | none => if c = sep then some ([], cs) else none

/-- What follows the last occurrence of `sep`; everything when there is
none. -/
def afterLast (sep : Char) (cs : List Char) : List Char :=
  match cutAtLast? sep cs with
  | some (_, after) => after
  | none => cs

/-- The non-empty maximal pieces between characters satisfying `p`. -/
def pieces (p : Char → Bool) (cs : List Char) : List (List Char) :=
  (cs.splitOnP p).filter (· ≠ [])

/-- Drop one carriage return at the end of a line. -/
def dropReturn (line : List Char) : List Char :=
  (['\r'].isSuffixOf? line).getD line

/-- The lines of a text whose first line starts with `current`, written last
character first. -/
def linesFrom (current : List Char) : List Char → List (List Char)
  | [] => if current = [] then [] else [current.reverse]
  | c :: cs =>
    if c = '\n' then dropReturn current.reverse :: linesFrom [] cs
      else linesFrom (c :: current) cs

/-- The lines of a text. Each line break belongs to the line before it, so a
final one opens no further line, and the return of a return and line feed
pair goes with the line feed. -/
def lines (cs : List Char) : List (List Char) :=
  linesFrom [] cs

/-! ## Joining -/

/-- The strings in a row with `sep` between neighbours. -/
def joinWith (sep : String) : List String → String
  | [] => ""
  | [s] => s
  | s :: rest => s ++ sep ++ joinWith sep rest

/-- The strings in a row. -/
def concat : List String → String
  | [] => ""
  | s :: rest => s ++ concat rest

/-- The lines in a row, each ended by a line feed. -/
def unlines : List String → String
  | [] => ""
  | line :: lines => line ++ "\n" ++ unlines lines

/-- `n` steps of two spaces. -/
def spaces : Nat → String
  | 0 => ""
  | n + 1 => "  " ++ spaces n

/-- One line with its line break, indented unless it is empty. -/
def indentLine (levels : Nat) (line : List Char) : String :=
  if line = [] then "\n" else spaces levels ++ String.ofList line ++ "\n"

/-- Indent every non-empty line by `levels` steps and end each line with a
line feed. -/
def indent (levels : Nat) (s : String) : String :=
  concat ((lines s.toList).map (indentLine levels))

/-! ## Numerals -/

/-- An integer in decimal digits, with a minus sign below zero. -/
def decimal : Int → String
  | .ofNat n => String.ofList (Nat.toDigits 10 n)
  | .negSucc n => "-" ++ String.ofList (Nat.toDigits 10 (n + 1))

/-- The value of a hexadecimal digit in either case. -/
def hexValue? (c : Char) : Option Nat :=
  if c.isDigit then some (c.toNat - 48)
  else if 'a' ≤ c ∧ c ≤ 'f' then some (c.toNat - 87)
  else if 'A' ≤ c ∧ c ≤ 'F' then some (c.toNat - 55)
  else none

/-- The value of a sequence of hexadecimal digits. -/
def hexNumber? (digits : List Char) : Option Nat :=
  digits.foldlM (fun n c => (hexValue? c).map (n * 16 + ·)) 0

/-! ## Byte offsets -/

/-- Length of the UTF-8 form. -/
def byteLength : List Char → Nat
  | [] => 0
  | c :: cs => c.utf8Size + byteLength cs

/-- What stands from byte offset `n` on, rounding up to the next
character. -/
def dropBytes : Nat → List Char → List Char
  | 0, cs => cs
  | _, [] => []
  | n + 1, c :: cs => dropBytes (n + 1 - c.utf8Size) cs

/-- What stands before byte offset `n`, rounding up to the next
character. -/
def takeBytes : Nat → List Char → List Char
  | 0, _ => []
  | _, [] => []
  | n + 1, c :: cs => c :: takeBytes (n + 1 - c.utf8Size) cs

/-- The text from byte offset `n` on, when a character starts at `n`. -/
def suffixAt? (n : Nat) (cs : List Char) : Option (List Char) :=
  if byteLength (takeBytes n cs) = n then some (dropBytes n cs) else none

@[simp] theorem byteLength_nil : byteLength [] = 0 := rfl

@[simp] theorem byteLength_cons (c : Char) (cs : List Char) :
    byteLength (c :: cs) = c.utf8Size + byteLength cs := rfl

@[simp] theorem byteLength_append (xs ys : List Char) :
    byteLength (xs ++ ys) = byteLength xs + byteLength ys := by
  induction xs with
  | nil => simp
  | cons c cs ih => simp [ih, Nat.add_assoc]

theorem takeBytes_append_dropBytes (n : Nat) (cs : List Char) :
    takeBytes n cs ++ dropBytes n cs = cs := by
  fun_induction takeBytes n cs with
  | case1 => simp [dropBytes]
  | case2 => simp [dropBytes]
  | case3 n c cs ih => simp [dropBytes, ih]

end Text

end TypedContent

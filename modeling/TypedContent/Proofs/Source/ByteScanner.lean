import Mathlib.Data.PFun
import TypedContent.Proofs.Text.Utf8
import TypedContent.Source.Block
import TypedContent.Source.Member

/-!
# Scanning bytes

Texts are read character by character in this library, by recursion on the
text, and nothing can go wrong there. Here the same reading is told the way
a machine does it: over the bytes of the text, from offset to offset, in
loops that go on until one of their own tests ends them. Each access is
checked: a byte may be read below the end only, and a slice needs bounds in
order that are boundaries of characters.

So a run of the scanner has three outcomes: a result, a fault, or no end. A
loop that never ends has no value. That every run has a result, and which
one, is shown in `ByteSafety`.
-/

namespace TypedContent

namespace ByteScanner

open Text
open Source (isQuote closerOf? isCloser isCut opensNesting closesNesting
  startsDeclaration Marked Member)

/-! ## Runs -/

inductive Fault where
  /-- A byte is read behind the end. -/
  | index
  /-- The bounds of a slice are out of range, out of order or inside a
  character. -/
  | slice
deriving DecidableEq, Repr

/-- A run that has no end and so no value, that a fault breaks off, or that
has a result. -/
abbrev Run := ExceptT Fault Part

section

variable {σ α : Type}

/-- What a round of a loop comes to: the end of the loop, or the state for
the next round. -/
def verdict : Except Fault (σ ⊕ α) → Except Fault α ⊕ σ
  | .error fault => .inl (.error fault)
  | .ok (.inl s) => .inr s
  | .ok (.inr a) => .inl (.ok a)

/-- Go round from state to state (`inl`) until there is a result (`inr`). -/
def loop (round : σ → Run (σ ⊕ α)) : σ → Run α :=
  PFun.fix fun s => (round s).run.map verdict

theorem loop_eq (round : σ → Run (σ ⊕ α)) (s : σ) :
    loop round s = round s >>= Sum.elim (loop round) pure := by
  have hround (r : Except Fault α) (x : Except Fault (σ ⊕ α)) :
      (verdict x = .inl r ∨ ∃ s', verdict x = .inr s' ∧ r ∈ (loop round s').run)
        ↔ r ∈ ExceptT.bindCont (Sum.elim (loop round) pure) x := by
    rcases x with fault | s' | a
    · simp [verdict, ExceptT.bindCont, eq_comm]
    · simp [verdict, ExceptT.bindCont, ExceptT.run]
    · simp [verdict, ExceptT.bindCont, pure, ExceptT.pure, ExceptT.mk, eq_comm]
  refine Part.ext fun r => PFun.mem_fix_iff.trans (Iff.trans ?_ Part.mem_bind_iff.symm)
  simp only [Part.mem_map_iff, ← hround]
  constructor
  · rintro (⟨x, hx, hr⟩ | ⟨s', ⟨x, hx, hs⟩, hr⟩)
    · exact ⟨x, hx, .inl hr⟩
    · exact ⟨x, hx, .inr ⟨s', hs, hr⟩⟩
  · rintro ⟨x, hx, hr | ⟨s', hs, hr⟩⟩
    · exact .inl ⟨x, hx, hr⟩
    · exact .inr ⟨s', ⟨x, hx, hs⟩, hr⟩

theorem loop_step {round : σ → Run (σ ⊕ α)} {s s' : σ} (h : round s = pure (.inl s')) :
    loop round s = loop round s' := by
  rw [loop_eq, h, pure_bind, Sum.elim_inl]

theorem loop_done {round : σ → Run (σ ⊕ α)} {s : σ} {a : α}
    (h : round s = pure (.inr a)) :
    loop round s = pure a := by
  rw [loop_eq, h, pure_bind, Sum.elim_inr]

end

def byteAt (bytes : List Char) (i : Nat) : Run Char :=
  match bytes[i]? with
  | some b => return b
  | none => throw .index

/-- What stands between two byte offsets of a text. -/
def slice (text : List Char) (start stop : Nat) : Run (List Char) :=
  if start ≤ stop ∧ IsBoundary text start ∧ IsBoundary text stop then
    return takeBytes (stop - start) (dropBytes start text)
  else throw .slice

/-- What stands from a byte offset on. -/
def sliceFrom (text : List Char) (start : Nat) : Run (List Char) :=
  slice text start (byteLength text)

/-! ## Literals and comments -/

/-- The offset behind a literal, from an offset inside it on. An escape
takes two bytes. -/
def literalEnd (bytes : List Char) (quote : Char) : Nat → Run Nat :=
  loop fun i => do
    if i < bytes.length then
      let c ← byteAt bytes i
      if c = '\\' then return .inl (i + 2)
      else if c = quote then return .inr (i + 1)
      else return .inl (i + 1)
    else return .inr bytes.length

/-- The offset behind the first line feed from `pos` on. -/
def lineEnd (bytes : List Char) (pos : Nat) : Run Nat :=
  if pos ≤ bytes.length then
    match (bytes.drop pos).findIdx? (· == '\n') with
    | some distance => return pos + distance + 1
    | none => return bytes.length
  else throw .slice

/-- The offset behind a block comment, from an offset inside it on. -/
def blockCommentEnd (bytes : List Char) : Nat → Run Nat :=
  loop fun i => do
    if i + 1 < bytes.length then
      if (← byteAt bytes i) = '*' ∧ (← byteAt bytes (i + 1)) = '/' then
        return .inr (i + 2)
      else return .inl (i + 1)
    else return .inr bytes.length

/-- The offset behind the literal or comment that starts at `pos`, if one
does. -/
def skipTrivia (bytes : List Char) (pos : Nat) : Run (Option Nat) := do
  let c ← byteAt bytes pos
  if isQuote c then return some (← literalEnd bytes c (pos + 1))
  else if c = '/' then
    if bytes[pos + 1]? = some '/' then return some (← lineEnd bytes pos)
    else if bytes[pos + 1]? = some '*' then
      return some (← blockCommentEnd bytes (pos + 2))
    else return none
  else return none

/-! ## Loops over the code -/

section

variable {σ α : Type} (bytes : List Char) (act : σ → Nat → Char → Run (σ ⊕ α))
  (finish : σ → Run α)

/-- One round of the loop that the searches share. A literal or comment is
passed over, and any other byte is given to `act`, which goes on with a
state (`inl`) or stops with a result (`inr`). -/
def scanRound : σ × Nat → Run ((σ × Nat) ⊕ α)
  | (s, i) => do
    if i < bytes.length then
      match ← skipTrivia bytes i with
      | some next => return .inl (s, next)
      | none =>
        match ← act s i (← byteAt bytes i) with
        | .inl s => return .inl (s, i + 1)
        | .inr a => return .inr a
    else return .inr (← finish s)

def scan (s : σ) (i : Nat) : Run α :=
  loop (scanRound bytes act finish) (s, i)

end

/-- One step to the partner of a bracket; `pending` are the closers that are
due, the innermost first. -/
def closeStep (pending : List Char) (i : Nat) (c : Char) : Run (List Char ⊕ Option Nat) :=
  match closerOf? c with
  | some closer => return .inl (closer :: pending)
  | none =>
    if isCloser c then
      match pending with
      | [] => return .inr none
      | due :: outer =>
        if due ≠ c then return .inr none
        else if outer = [] then return .inr (some i)
        else return .inl outer
    else return .inl pending

/-- Byte offset of the partner of the bracket at byte offset `start`. -/
def closeOffset (text : List Char) (start : Nat) : Run (Option Nat) :=
  match (utf8 text)[start]?.bind closerOf? with
  | some closer => scan (utf8 text) closeStep (fun _ => return none) [closer] (start + 1)
  | none => return none

/-- One step to the first `opener`. -/
def blockStep (text : List Char) (opener : Char) (_ : Unit) (i : Nat) (b : Char) :
    Run (Unit ⊕ Option (List Char × Nat × Nat)) := do
  if b = opener then
    match ← closeOffset text i with
    | some close => return .inr (some (← slice text (i + 1) close, i, close + 1))
    | none => return .inr none
  else return .inl ()

/-- The block of the first byte `opener` at or after byte offset `start`:
what it holds, the offset of its bracket, and the one just past its closing
bracket. -/
def blockFrom (text : List Char) (start : Nat) (opener : Char) :
    Run (Option (List Char × Nat × Nat)) :=
  scan (utf8 text) (blockStep text opener) (fun _ => return none) () start

/-- The nesting depth after the byte at offset `i`. The sign that ends an
arrow closes nothing. -/
def depthStep (bytes : List Char) (depth i : Nat) (c : Char) : Run Nat := do
  if opensNesting c then return depth + 1
  else if c = '>' ∧ 0 < i then
    if (← byteAt bytes (i - 1)) = '=' then return depth else return depth - 1
  else if closesNesting c then return depth - 1
  else return depth

/-- The parts that are cut off so far, the depth, and the offset from which
the next part is taken. -/
structure Cuts where
  done : List (List Char)
  depth : Nat
  start : Nat

def cutStep (text : List Char) (separators : List Char) (s : Cuts) (i : Nat) (c : Char) :
    Run (Cuts ⊕ List (List Char)) := do
  if isCut separators s.depth ⟨.code, c⟩ then
    return .inl { s with done := s.done ++ [← slice text s.start i], start := i + 1 }
  else return .inl { s with depth := ← depthStep (utf8 text) s.depth i c }

/-- All parts, once the last one is taken. -/
def lastCut (text : List Char) (s : Cuts) : Run (List (List Char)) :=
  return s.done ++ [← sliceFrom text s.start]

/-- The trimmed parts between the top-level `separators`, without the empty
ones. -/
def parts (text separators : List Char) : Run (List (List Char)) := do
  let segments ← scan (utf8 text) (cutStep text separators) (lastCut text) ⟨[], 0, 0⟩ 0
  return (segments.map trim).filter (· ≠ [])

def statementStep (text : List Char) (depth i : Nat) (c : Char) : Run (Nat ⊕ Nat) := do
  if c = ';' ∧ depth = 0 then return .inr i
  else if c = '\n' ∧ depth = 0 then
    if startsDeclaration (← sliceFrom text (i + 1)) then return .inr i
      else return .inl depth
  else return .inl (← depthStep (utf8 text) depth i c)

/-- Byte offset at which the statement starting at byte offset `start`
ends. -/
def statementEnd (text : List Char) (start : Nat) : Run Nat :=
  scan (utf8 text) (statementStep text) (fun _ => return byteLength text) 0 start

/-! ## Texts without gaps -/

/-- A space behind what is written already, if one is due. -/
def spaceOut (out : List Char) (space : Bool) : List Char :=
  if space && out ≠ [] then out ++ [' '] else out

/-- Squash what starts at offset `i`, behind what is written already.
`space` tells that a gap stands in between. -/
def squashRound (text : List Char) :
    List Char × Bool × Nat → Run ((List Char × Bool × Nat) ⊕ List Char)
  | (out, space, i) => do
    if i < byteLength text then
      match ← skipTrivia (utf8 text) i with
      | some next =>
        if isQuote (← byteAt (utf8 text) i) then
          return .inl (spaceOut out space ++ (← slice text i next), false, next)
        else return .inl (out, true, next)
      | none =>
        match ← sliceFrom text i with
        | [] => return .inr out
        | c :: _ =>
          if isBlank c then return .inl (out, true, i + c.utf8Size)
          else return .inl (spaceOut out space ++ [c], false, i + c.utf8Size)
    else return .inr out

def squashFrom (text out : List Char) (space : Bool) (i : Nat) : Run (List Char) :=
  loop (squashRound text) (out, space, i)

def squash (text : List Char) : Run (List Char) :=
  squashFrom text [] false 0

def startsComment (text : List Char) : Bool :=
  ['/', '/'].isPrefixOf text || ['/', '*'].isPrefixOf text

/-- Drop the comments in front of a text that does not start with a
blank. -/
def dropComments : List Char → Run (List Char) :=
  loop fun text => do
    if startsComment text then
      let stop := (← skipTrivia (utf8 text) 0).getD (byteLength text)
      return .inl (trimStart (← sliceFrom text stop))
    else return .inr text

/-- Drop the blanks and comments in front of the first token. -/
def dropGap (text : List Char) : Run (List Char) :=
  dropComments (trimStart text)

/-! ## Members, string lists and type arguments -/

/-- Whether `quote` stands at both ends of a text that has room for two of
them. -/
def isAround (text : List Char) (quote : Char) : Bool :=
  2 ≤ byteLength text && text.head? == some quote && text.getLast? == some quote

/-- The trimmed text without the pair of equal quotes around it, if there is
one. -/
def unquote (text : List Char) : Run (List Char) :=
  if ['\'', '"', '\x60'].any (isAround (trim text)) then
    slice (trim text) 1 (byteLength (trim text) - 1)
  else return trim text

/-- Byte offset of the first `c`. -/
def offsetOf? (c : Char) (text : List Char) : Option Nat :=
  (cutAt? [c] text).map fun (before, _) => byteLength before

/-- The key as it is written and the text from its end on. -/
def splitKey (text : List Char) : Run (Option (List Char × List Char)) := do
  let stop? ← if Source.startsKeyQuote text then skipTrivia (utf8 text) 0
      else pure (offsetOf? ':' text)
  match stop? with
  | some stop => return some (← slice text 0 stop, ← sliceFrom text stop)
  | none => return none

/-- Read one entry of an object body. -/
def member (entry : List Char) : Run (Option Member) := do
  let entry ← dropGap entry
  let entry := trimStart (("readonly ".toList.isPrefixOf? entry).getD entry)
  match ← splitKey entry with
  | none => return none
  | some (key, rest) =>
    let key := trim key
    let (name, isOptional, rest) := Source.splitOptional key (trimStart rest)
    match [':'].isPrefixOf? rest with
    | none => return none
    | some value =>
      let value := trim value
      let name ← unquote name
      if (Source.startsKeyQuote key || Source.isPlainKey name) && value ≠ [] then
        return some { name, isOptional, value }
      else return none

def members (body : List Char) : Run (List Member) := do
  let found ← (← parts body [',', ';']).mapM member
  return found.filterMap id

def stringList (text : List Char) : Run (List (List Char)) := do
  let items ← (← parts (Source.dropListBrackets (trim text)) [',', '|']).mapM unquote
  return items.filter (· ≠ [])

def genericParts (text : List Char) : Run (Option (List Char × List (List Char))) := do
  let text := trim text
  match offsetOf? '<' text with
  | none => return some (text, [])
  | some angle =>
    match ['>'].isSuffixOf? (← sliceFrom text (angle + 1)) with
    | none => return none
    | some args => return some (trim (← slice text 0 angle), ← parts args [','])

end ByteScanner

end TypedContent

import TypedContent.Source.Pattern
import TypedContent.Text.Basic

/-!
# Route paths and handlers

A route path is literal text with parameters in it, written `:name` anywhere
in a segment. A colon that no name follows is literal text. A handler names
a controller and an action, `order.pay`, sometimes behind the place where
the controller lives, `api::order.order.pay`.
-/

namespace TypedContent

/-- A piece of a route path. -/
inductive PathPiece where
  /-- Text that is sent as it is written. -/
  | literal (text : List Char)
  /-- A parameter, without its colon. -/
  | param (name : List Char)
deriving DecidableEq, Repr

/-- A piece as it is written in a path. -/
def PathPiece.text : PathPiece → List Char
  | literal text => text
  | param name => ':' :: name

namespace Path

/-- The parameter name at the head of a text. -/
def paramAt? : List Char → Option (List Char)
  | ':' :: c :: cs =>
    if c.isAlpha || c == '_' then some (c :: cs.takeWhile Text.isWord) else none
  | _ => none

/-- Put a character in front of the first literal, or make it one. -/
def consLiteral (c : Char) : List PathPiece → List PathPiece
  | .literal text :: pieces => .literal (c :: text) :: pieces
  | pieces => .literal [c] :: pieces

/-- The pieces of a path whose next `skip` characters belong to the
parameter before them. -/
def piecesFrom : Nat → List Char → List PathPiece
  | _, [] => []
  | skip + 1, _ :: cs => piecesFrom skip cs
  | 0, c :: cs =>
    match paramAt? (c :: cs) with
    | some name => .param name :: piecesFrom name.length cs
    | none => consLiteral c (piecesFrom 0 cs)

/-- The pieces of a path. -/
def pieces (path : List Char) : List PathPiece :=
  piecesFrom 0 path

/-- The parameter names of a path, in order. -/
def params (path : List Char) : List (List Char) :=
  (pieces path).filterMap fun
    | .param name => some name
    | .literal _ => none

theorem eq_of_paramAt? {cs name : List Char} (h : paramAt? cs = some name) :
    ∃ rest, cs = ':' :: name ++ rest := by
  unfold paramAt? at h
  split at h
  · rename_i c cs
    split at h
    · cases h
      exact ⟨cs.dropWhile Text.isWord, by simp [List.takeWhile_append_dropWhile]⟩
    · cases h
  · cases h

theorem flatMap_consLiteral (c : Char) (pieces : List PathPiece) :
    (consLiteral c pieces).flatMap PathPiece.text
      = c :: pieces.flatMap PathPiece.text := by
  unfold consLiteral
  split <;> simp [PathPiece.text]

theorem flatMap_piecesFrom (skip : Nat) (cs : List Char) :
    (piecesFrom skip cs).flatMap PathPiece.text = cs.drop skip := by
  fun_induction piecesFrom skip cs with
  | case1 => simp
  | case2 skip c cs ih => simpa using ih
  | case3 c cs name h ih =>
    obtain ⟨rest, hrest⟩ := eq_of_paramAt? h
    obtain ⟨rfl, hcs⟩ := List.cons.inj (hrest.trans (List.cons_append ..))
    rw [List.flatMap_cons, ih, hcs]
    simp [PathPiece.text]
  | case4 c cs h ih => simp [flatMap_consLiteral, ih]

/-- The pieces of a path, one after the other, are the path. -/
theorem flatMap_pieces (path : List Char) :
    (pieces path).flatMap PathPiece.text = path := by
  simp [pieces, flatMap_piecesFrom]

end Path

namespace Handler

def isPlaceChar (c : Char) : Bool :=
  Text.isWord c || c == '-'

/-- What follows the place `namespace::name.` at the head of a handler. -/
def afterPlace? (cs : List Char) : Option (List Char) := do
  let (_, rest) ← Source.run? isPlaceChar cs
  let (_, rest) ← Source.run? isPlaceChar (← Source.word? "::" rest)
  Source.char? '.' rest

/-- The handler without blanks around it and without its place. -/
def normalize (handler : List Char) : List Char :=
  let trimmed := Text.trim handler
  (afterPlace? trimmed).getD trimmed

/-- The controller and the action of a handler. -/
def split? (handler : List Char) : Option (List Char × List Char) :=
  Text.cutAtLast? '.' (normalize handler)

end Handler

end TypedContent

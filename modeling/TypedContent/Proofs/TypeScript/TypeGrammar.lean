import TypedContent.Proofs.TypeScript.TypeTokens

/-!
# The grammar of types

A reader for types, level by level: a conditional is made of unions, a union
of intersections, an intersection of operands behind `keyof`, `readonly` or
`infer`, and an operand is a primary type with pairs of brackets behind it.
Each level is written over a reader for whole types, which stand between
parentheses, brackets and braces and in the branches of a conditional;
`typeAt n` ties the knot for texts of up to `n` tokens.

The levels above the operands are lists with separators. `Gathers` says what
a list reader does with a piece of such a list: pieces go together
(`Gathers.append`), also when one of them holds several items.
-/

namespace TypedContent

open List

namespace TypeScript

/-- Takes tokens off the front of a list. -/
abbrev Reader (α : Type) := List Token → Option (α × List Token)

namespace Grammar

variable {α : Type}

/-! ## Readers -/

/-- What follows a given token. -/
def skip (t : Token) : List Token → Option (List Token)
  | [] => none
  | u :: rest => if u = t then some rest else none

/-- Items with a separator in front of each. An item gives back no more than
it was given. -/
def more (sep : Token) (item : Reader α)
    (ts : List Token) : Option (List α × List Token) :=
  match ts with
  | [] => some ([], [])
  | t :: ts =>
    if t = sep then
      match item ts with
      | none => none
      | some (x, rest) =>
        if _h : rest.length ≤ ts.length then (more sep item rest).map fun (xs, after) =>
          (x :: xs, after)
        else none
    else some ([], t :: ts)
termination_by ts.length

/-- One item or more, with separators between them. -/
def separated (sep : Token) (item : Reader α) : Reader (List α) := fun ts =>
  (item ts).bind fun (x, rest) => (more sep item rest).map fun (xs, after) =>
    (x :: xs, after)

/-! ## Levels -/

/-- The words that are written in front of a type. -/
def operators : List String :=
  ["keyof", "readonly", "infer"]

/-- Whether a word can be the name of a type. -/
def isTypeWord (name : String) : Bool :=
  !operators.contains name
    && (!reservedNames.contains name || name == "null" || name == "void")

/-- A type that starts with a word, read behind it. -/
def named (type : Reader TypeExpr) (name : String) : Reader TypeExpr := fun ts =>
  if name = "true" then some (.literal (.bool true), ts)
  else if name = "false" then some (.literal (.bool false), ts)
  else if isTypeWord name then
    match skip (.mark '<') ts with
    | none => some (.ref name, ts)
    | some ts =>
      (separated (.mark ',') type ts).bind fun (args, rest) =>
        (skip (.mark '>') rest).map fun rest => (.generic name args, rest)
  else none

/-- The rest of a property behind its key. -/
def value (type : Reader TypeExpr) (name : String)
    (isOptional : Bool) : Reader Property := fun ts =>
  (skip (.mark ':') ts).bind fun ts => (type ts).map fun (t, rest) =>
    (.mk name t isOptional, rest)

def member (type : Reader TypeExpr) : Reader Property
  | .word name :: ts | .text name :: ts =>
    match skip (.mark '?') ts with
    | none => value type name false ts
    | some ts => value type name true ts
  | _ => none

/-- The members of an object type, read behind its opening brace. -/
def members (type : Reader TypeExpr) : Reader TypeExpr := fun ts =>
  match skip (.mark '\x7d') ts with
  | some rest => some (.object [], rest)
  | none =>
    (separated (.mark ';') (member type) ts).bind fun (properties, rest) =>
      (skip (.mark '\x7d') rest).map fun rest => (.object properties, rest)

/-- A numeral behind a minus sign. -/
def negative : Reader TypeExpr
  | .number n :: ts => some (.literal (.int (-n)), ts)
  | _ => none

def primary (type : Reader TypeExpr) : Reader TypeExpr
  | [] => none
  | .text value :: ts => some (.literal (.string value), ts)
  | .number n :: ts => some (.literal (.int n), ts)
  | .word name :: ts => named type name ts
  | .mark c :: ts =>
    if c = '(' then (type ts).bind fun (t, rest) =>
      (skip (.mark ')') rest).map fun rest => (t, rest)
    else if c = '\x7b' then members type ts
    else if c = '-' then negative ts
    else none

/-- A type with all pairs of brackets that follow it. -/
def bracketed (t : TypeExpr) : List Token → TypeExpr × List Token
  | u :: v :: ts =>
    if u = .mark '[' ∧ v = .mark ']' then bracketed (.array t) ts else (t, u :: v :: ts)
  | ts => (t, ts)

def postfixed (type : Reader TypeExpr) : Reader TypeExpr := fun ts =>
  (primary type ts).map fun (t, rest) => bracketed t rest

/-- Only an array can be readonly. -/
def asReadonly? : TypeExpr → Option TypeExpr
  | .array item => some (.readonlyArray item)
  | _ => none

/-- The variable behind `infer`. -/
def variableName : Reader TypeExpr
  | .word name :: ts =>
    if reservedNames.contains name then none else some (.infer name, ts)
  | _ => none

def operator (type : Reader TypeExpr) : Reader TypeExpr
  | .word name :: ts =>
    if name = "keyof" then (operator type ts).map fun (t, rest) => (.keyof t, rest)
    else if name = "readonly" then (operator type ts).bind fun (t, rest) =>
      (asReadonly? t).map fun t => (t, rest)
    else if name = "infer" then variableName ts
    else postfixed type (.word name :: ts)
  | ts => postfixed type ts

/-- One member stands for itself. -/
def chain (join : List TypeExpr → TypeExpr) : List TypeExpr → TypeExpr
  | [t] => t
  | ts => join ts

def intersection (type : Reader TypeExpr) : Reader TypeExpr := fun ts =>
  (separated (.mark '&') (operator type) ts).map fun (ts, rest) =>
    (chain .intersection ts, rest)

def union (type : Reader TypeExpr) : Reader TypeExpr := fun ts =>
  (separated (.mark '|') (intersection type) ts).map fun (ts, rest) =>
    (chain .union ts, rest)

def conditional (type : Reader TypeExpr) : Reader TypeExpr := fun ts =>
  (union type ts).bind fun (check, rest) =>
    match skip (.word "extends") rest with
    | none => some (check, rest)
    | some rest =>
      (union type rest).bind fun (pattern, rest) =>
        (skip (.mark '?') rest).bind fun rest =>
          (type rest).bind fun (matched, rest) =>
            (skip (.mark ':') rest).bind fun rest =>
              (type rest).map fun (otherwise, rest) =>
                (.conditional check pattern matched otherwise, rest)

/-- A type of at most `n` tokens. Every level of nesting takes one. -/
def typeAt : Nat → Reader TypeExpr
  | 0 => fun _ => none
  | n + 1 => conditional (typeAt n)

end Grammar

/-- The type that a whole text spells. -/
def Alphabet.parse (a : Alphabet) (text : String) : Option TypeExpr :=
  (a.lex text.toList).bind fun ts =>
    match Grammar.typeAt ts.length ts with
    | some (t, []) => some t
    | _ => none

/-! ## Lists -/

namespace Grammar

variable {α : Type} {sep : Token} {item : Reader α} {allowed ts rest : List Token}

/-- What stands behind a piece: nothing, or one of the tokens given. -/
def Follows (allowed rest : List Token) : Prop :=
  ∀ t ∈ rest.head?, t ∈ allowed

theorem Follows.mono {allowed' : List Token} (h : Follows allowed rest)
    (hsubset : allowed ⊆ allowed') :
    Follows allowed' rest :=
  fun t ht => hsubset (h t ht)

theorem follows_cons {t : Token} (h : t ∈ allowed) : Follows allowed (t :: rest) := by
  intro u hu
  rw [head?_cons, Option.mem_some_iff] at hu
  exact hu ▸ h

@[simp] theorem skip_cons (t : Token) (rest : List Token) :
    skip t (t :: rest) = some rest :=
  if_pos rfl

theorem skip_of_follows {t : Token} (h : Follows allowed rest) (ht : t ∉ allowed) :
    skip t rest = none := by
  cases rest with
  | nil => rfl
  | cons u rest =>
    have hne : u ≠ t := fun heq => ht (heq ▸ h u rfl)
    exact if_neg hne

theorem more_of_follows (h : Follows allowed rest) (hsep : sep ∉ allowed) :
    more sep item rest = some ([], rest) := by
  cases rest with
  | nil => rw [more]
  | cons t rest =>
    have hne : t ≠ sep := fun heq => hsep (heq ▸ h t rfl)
    rw [more, if_neg hne]

/-- The items of several pieces in a row. -/
def gather : List (Option (List α)) → Option (List α)
  | [] => some []
  | xs :: pieces => xs.bind fun xs => (gather pieces).map (xs ++ ·)

/-- Items of a piece in front of those that follow it. -/
def withMore (sep : Token) (item : Reader α)
    (items : Option (List α)) : Reader (List α) := fun rest =>
  items.bind fun xs => (more sep item rest).map fun (ys, after) => (xs ++ ys, after)

/-- A piece of a list, at its start or behind a separator, is read as the
given items. -/
def Gathers (sep : Token) (item : Reader α) (allowed ts : List Token)
    (items : Option (List α)) : Prop :=
  ∀ rest, Follows (sep :: allowed) rest →
    separated sep item (ts ++ rest) = withMore sep item items rest
      ∧ more sep item (sep :: (ts ++ rest)) = withMore sep item items rest

theorem gathers_one {x : Option α}
    (h : ∀ rest, Follows (sep :: allowed) rest →
      item (ts ++ rest) = x.map fun x => (x, rest)) :
    Gathers sep item allowed ts (x.map fun x => [x]) := by
  intro rest hrest
  have hlength : rest.length ≤ (ts ++ rest).length := by
    rw [length_append]
    omega
  rw [separated, more, if_pos rfl, h rest hrest]
  cases x with
  | none => exact ⟨rfl, rfl⟩
  | some x =>
    refine ⟨rfl, ?_⟩
    simp only [Option.map_some, dif_pos hlength]
    rfl

theorem Gathers.append {us : List Token} {xs ys : Option (List α)}
    (h : Gathers sep item allowed ts xs) (h' : Gathers sep item allowed us ys) :
    Gathers sep item allowed (ts ++ sep :: us) (xs.bind fun xs => ys.map (xs ++ ·)) := by
  intro rest hrest
  have hbehind : Follows (sep :: allowed) (sep :: (us ++ rest)) :=
    follows_cons mem_cons_self
  have hjoin : withMore sep item xs (sep :: (us ++ rest))
      = withMore sep item (xs.bind fun xs => ys.map (xs ++ ·)) rest := by
    rw [withMore, (h' rest hrest).2, withMore, withMore]
    cases xs with
    | none => rfl
    | some xs =>
      cases ys with
      | none => rfl
      | some ys =>
        cases more sep item rest with
        | none => rfl
        | some found => simp
  rw [append_assoc, cons_append]
  exact ⟨(h _ hbehind).1.trans hjoin, (h _ hbehind).2.trans hjoin⟩

theorem gathers_intercalate {β : Type} {toks : β → List Token}
    {reads : β → Option (List α)} {bs : List β} (hne : bs ≠ [])
    (h : ∀ b ∈ bs, Gathers sep item allowed (toks b) (reads b)) :
    Gathers sep item allowed ([sep].intercalate (bs.map toks))
      (gather (bs.map reads)) := by
  induction bs with
  | nil => exact absurd rfl hne
  | cons b bs ih =>
    rw [forall_mem_cons] at h
    cases bs with
    | nil =>
      have hgather : gather ([b].map reads) = reads b := by
        cases hb : reads b with
        | none => simp [gather, hb]
        | some xs => simp [gather, hb]
      rw [hgather]
      simpa using h.1
    | cons b' bs =>
      have hjoin := h.1.append (ih (cons_ne_nil b' bs) h.2)
      simpa [List.intercalate, List.intersperse, gather] using hjoin

/-- Where the list ends, its items are all that was read. -/
theorem Gathers.separated_eq {items : Option (List α)}
    (h : Gathers sep item allowed ts items) (hrest : Follows allowed rest)
    (hsep : sep ∉ allowed) :
    separated sep item (ts ++ rest) = items.map fun xs => (xs, rest) := by
  rw [(h rest (hrest.mono (subset_cons_self sep allowed))).1, withMore,
    more_of_follows hrest hsep]
  cases items with
  | none => rfl
  | some xs => simp

end Grammar

end TypeScript

end TypedContent

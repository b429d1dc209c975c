import TypedContent.Proofs.Lists
import TypedContent.Proofs.TypeScript.Scoping

/-!
# Evaluating types

A type expression stands for a type. `evalWith` computes it: variables have
values, names and generic types are looked up by `call`, an intersection of
object types is the merge of their fields, and a conditional type takes its
first branch when the type it checks matches the pattern, with the variables
of the pattern bound by the match.

Values are types in a normal form: unions are flat, and no union has exactly
one member.
-/

namespace TypedContent

open List

namespace TypeScript

variable {fields : Fields}

/-- A type in normal form. -/
inductive Value where
  | primitive (kind : Primitive)
  | literal (value : Literal)
  /-- A declared type that is not looked into. -/
  | named (name : String)
  | array (item : Value)
  | readonlyArray (item : Value)
  /-- A list of known length, as in `readonly ["a", "b"]`. -/
  | tuple (items : List Value)
  | union (members : List Value)
  | intersection (members : List Value)
  | object (fields : List (String × Value))
  | record (key value : Value)
  /-- The variable of a pattern that stands for any type. -/
  | hole (name : String)

/-- The fields of an object type. -/
abbrev Fields := List (String × Value)

/-- The values of variables, the innermost first. -/
abbrev Env := List (String × Value)

namespace Value

def text (value : String) : Value :=
  literal (.string value)

def null : Value :=
  primitive .null

/-! ## Unions and intersections -/

/-- The members of a union; any other type is its only member. -/
def members : Value → List Value
  | union members => members
  | value => [value]

/-- The type with these members. -/
def ofMembers : List Value → Value
  | [value] => value
  | members => union members

/-- The union of types. -/
def unionOf (values : List Value) : Value :=
  ofMembers (values.flatMap members)

/-- The union of string literals. -/
def oneOf (texts : List String) : Value :=
  unionOf (texts.map text)

/-- Add a field; a field of the same name has to have both types. -/
def mergeField (name : String) (value : Value) : Fields → Fields
  | [] => [(name, value)]
  | (n, v) :: fields =>
    if n = name then (n, intersection [v, value]) :: fields
      else (n, v) :: mergeField name value fields

/-- The fields of an intersection of two object types. -/
def mergeFields (fields added : Fields) : Fields :=
  added.foldl (fun fields (name, value) => mergeField name value fields) fields

def fields? : Value → Option Fields
  | object fields => some fields
  | _ => none

/-- The intersection of types: object types are merged. -/
def intersectionOf (values : List Value) : Value :=
  match values.mapM fields? with
  | some parts => object (parts.foldl mergeFields [])
  | none => intersection values

/-! ## Matching -/

/-- What the items of an array or a list may be. -/
def items? : Value → Option (List Value)
  | array item | readonlyArray item => some item.members
  | tuple items => some items
  | _ => none

/-- What the field of an object type may be. -/
def field? (name : String) : Value → Option (List Value)
  | object fields => (fields.lookup name).map members
  | _ => none

/-- Whether a type is one of the types that a predefined type stands for. -/
def isA : Primitive → Value → Bool
  | .unknown, _ | .any, _ => true
  | .object, object _ | .object, array _ | .object, readonlyArray _
  | .object, tuple _ => true
  | .string, literal (.string _) | .number, literal (.int _)
  | .boolean, literal (.bool _) => true
  | .null, literal .null => true
  | kind, primitive kind' => kind = kind'
  | _, _ => false

def isLiteral (l : Literal) : Value → Bool
  | literal l' => l' = l
  | _ => false

def isNamed (name : String) : Value → Bool
  | named name' => name' = name
  | _ => false

mutual

/-- Match a type, given by its members, with a pattern. Where a variable of
the pattern stands, the members there are what it is bound to. No type
matches a pattern of the last four forms. -/
def match? : Value → List Value → Option Env
  | hole name, values => some [(name, ofMembers values)]
  | primitive kind, values => if values.all (isA kind) then some [] else none
  | literal l, values => if values.all (isLiteral l) then some [] else none
  | named name, values => if values.all (isNamed name) then some [] else none
  | readonlyArray item, values => do match? item (← values.mapM items?).flatten
  | union patterns, values =>
    (values.mapM fun value => matchAny? patterns [value]).map List.flatten
  | object fields, values => matchFields? fields values
  | array _, _ | tuple _, _ | intersection _, _ | record _ _, _ => none

/-- Match with the first pattern that fits. -/
def matchAny? : List Value → List Value → Option Env
  | [], _ => none
  | pattern :: patterns, values => (match? pattern values).or (matchAny? patterns values)

/-- Match every field of a pattern. Further fields do not matter. -/
def matchFields? : List (String × Value) → List Value → Option Env
  | [], _ => some []
  | (name, pattern) :: fields, values => do
    let bound ← match? pattern (← values.mapM (field? name)).flatten
    return bound ++ (← matchFields? fields values)

end

/-- The fields of an object type that a union of names lists. -/
def pick (fields : Fields) (names : Value) : Fields :=
  fields.filter fun field => names.members.any (isLiteral (.string field.1))

/-- `Pick` with its arguments. -/
def pick? : List Value → Option Value
  | [object fields, names] => some (object (pick fields names))
  | _ => none

end Value

/-! ## Evaluation -/

mutual

/-- The type that an expression stands for. `call` gives the types of names
that are no variables, and of generic types with their arguments. A
conditional that checks a variable is taken apart by the members of the
variable. -/
def evalWith (call : String → List Value → Option Value)
    (env : Env) : TypeExpr → Option Value
  | .primitive .never => some (.union [])
  | .primitive kind => some (.primitive kind)
  | .literal value => some (.literal value)
  | .array item => (evalWith call env item).map .array
  | .readonlyArray item => (evalWith call env item).map .readonlyArray
  | .union members => (evalTypes call env members).map Value.unionOf
  | .intersection members => (evalTypes call env members).map Value.intersectionOf
  | .object properties => (evalProperties call env properties).map .object
  | .record key value =>
    do call "Record" [← evalWith call env key, ← evalWith call env value]
  | .ref name =>
    match env.lookup name with
    | some value => some value
    | none => call name []
  | .generic name args => do call name (← evalTypes call env args)
  | .conditional check pattern matched otherwise =>
    let branch (env : Env) (value : Value) : Option Value := do
      match (← evalWith call env pattern).match? value.members with
      | some bound => evalWith call (bound ++ env) matched
      | none => evalWith call env otherwise
    match check with
    | .ref name =>
      match env.lookup name with
      | some value =>
        (value.members.mapM fun v => branch ((name, v) :: env) v).map Value.unionOf
      | none => do branch env (← call name [])
    | check => do branch env (← evalWith call env check)
  | .infer name => some (.hole name)
  | .keyof item => do
    let fields ← (← evalWith call env item).fields?
    return Value.oneOf (fields.map Prod.fst)
  | .raw _ => none

def evalTypes (call : String → List Value → Option Value) (env : Env) :
    List TypeExpr → Option (List Value)
  | [] => some []
  | type :: types => do return (← evalWith call env type) :: (← evalTypes call env types)

/-- The fields of an object type. An optional property is no field that is
always there. -/
def evalProperties (call : String → List Value → Option Value)
    (env : Env) : List Property → Option Fields
  | [] => some []
  | .mk name type isOptional :: properties =>
    if isOptional then none
    else do
      return (name, ← evalWith call env type) :: (← evalProperties call env properties)

end

/-! ## Scopes -/

/-- The declarations that names are looked up among. -/
abbrev Scope := List Declaration

/-- The type declarations of a name. -/
def Scope.declared (s : Scope) (name : String) : List Declaration :=
  s.filter fun d => d.isType && d.name == name

/-- The properties of a plain interface. -/
def Declaration.plainProperties? : Declaration → Option (List Property)
  | interface { typeParameters := [], .. } [] properties => some properties
  | _ => none

/-- The type of a name with its arguments, where declarations refer to each
other to a depth below the given one. Interfaces of one name are one
interface, and a name that is not declared has the type that `outer`
gives. -/
def Scope.call (outer : String → List Value → Option Value) (s : Scope) :
    Nat → String → List Value → Option Value
  | 0, _, _ => none
  | n + 1, name, args =>
    match s.declared name with
    | [] => outer name args
    | [.typeAlias head type] =>
      if head.typeParameters.length = args.length then
        evalWith (s.call outer n)
          ((head.typeParameters.map TypeParameter.name).zip args) type
      else none
    | ds => do
      if args.isEmpty then
        return .object (← evalProperties (s.call outer n) []
          (← ds.mapM Declaration.plainProperties?).flatten)
      else none

/-- The predefined generic types that others do not define. A plain name
stands for itself. -/
def builtin? : String → List Value → Option Value
  | name, [] => some (.named name)
  | "Pick", args => Value.pick? args
  | "Record", [key, value] => some (.record key value)
  | _, _ => none

/-- The predefined generic types that others define. -/
def utilityTypes : Scope :=
  [.typeAlias { name := "Extract", typeParameters := [{ name := "T" }, { name := "U" }] }
      (.conditional (.ref "T") (.ref "U") (.ref "T") (.primitive .never)),
    .typeAlias { name := "Exclude", typeParameters := [{ name := "T" }, { name := "U" }] }
      (.conditional (.ref "T") (.ref "U") (.primitive .never) (.ref "T")),
    .typeAlias { name := "Omit", typeParameters := [{ name := "T" }, { name := "K" }] }
      (.generic "Pick" [.ref "T", .generic "Exclude" [.keyof (.ref "T"), .ref "K"]])]

/-- The predefined types, which no declaration of a module changes the
meaning of. -/
def predefined : String → List Value → Option Value :=
  utilityTypes.call builtin? 2

/-- The type of an expression, where declarations refer to each other to a
depth below the given one. -/
def Scope.eval (s : Scope) (depth : Nat) (env : Env) (type : TypeExpr) : Option Value :=
  evalWith (s.call predefined depth) env type

/-! ## Unions -/

namespace Value

variable {value : Value} {values : List Value} {parts : List Fields}

/-- A type that is no union. -/
def IsAtom (value : Value) : Prop :=
  value.members = [value]

theorem isAtom_object (fields : Fields) : (object fields).IsAtom := rfl

theorem isAtom_text (s : String) : (text s).IsAtom := rfl

theorem unionOf_singleton (h : value.IsAtom) : unionOf [value] = value := by
  rw [unionOf, flatMap_singleton, h]
  rfl

theorem flatMap_members (h : ∀ v ∈ values, v.IsAtom) :
    values.flatMap members = values := by
  induction values with
  | nil => rfl
  | cons v values ih =>
    rw [flatMap_cons, h v mem_cons_self, ih fun w hw => h w (mem_cons_of_mem _ hw)]
    rfl

/-- The members of a union of types that are no unions. -/
theorem members_unionOf (h : ∀ v ∈ values, v.IsAtom) :
    (unionOf values).members = values := by
  rw [unionOf, flatMap_members h]
  match values, h with
  | [], _ => rfl
  | [v], h => exact h v mem_cons_self
  | _ :: _ :: _, _ => rfl

theorem flatMap_members_texts (texts : List String) :
    (texts.map text).flatMap members = texts.map text := by
  refine flatMap_members fun v hv => ?_
  obtain ⟨s, -, rfl⟩ := mem_map.1 hv
  exact isAtom_text s

theorem ofMembers_texts (texts : List String) :
    ofMembers (texts.map text) = oneOf texts := by
  rw [oneOf, unionOf, flatMap_members_texts]

theorem members_oneOf (texts : List String) : (oneOf texts).members = texts.map text := by
  refine members_unionOf fun v hv => ?_
  obtain ⟨s, -, rfl⟩ := mem_map.1 hv
  exact isAtom_text s

theorem isLiteral_text {s t : String} :
    isLiteral (.string s) (text t) = decide (t = s) := by
  simp [text, isLiteral]

theorem matchAny?_texts (texts : List String) (s : String) :
    matchAny? (texts.map text) [text s] = if s ∈ texts then some [] else none := by
  induction texts with
  | nil => rfl
  | cons t texts ih =>
    have hhead : match? (text t) [text s] = if s = t then some [] else none := by
      simp [text, match?, isLiteral]
    rw [map_cons, matchAny?, hhead, ih]
    by_cases hs : s = t
    · simp [hs]
    · simp [hs]

/-- A literal matches a union of literals when it is one of them. -/
theorem match?_oneOf (texts : List String) (s : String) :
    (oneOf texts).match? (text s).members = if s ∈ texts then some [] else none := by
  change (oneOf texts).match? [text s] = _
  match texts with
  | [] => rfl
  | [t] =>
    have hone : oneOf [t] = text t := rfl
    simp [hone, text, match?, isLiteral]
  | t :: u :: texts =>
    have hmany : oneOf (t :: u :: texts) = union ((t :: u :: texts).map text) :=
      (ofMembers_texts (t :: u :: texts)).symm
    rw [hmany, match?, mapM_cons, mapM_nil, matchAny?_texts]
    split <;> rfl

/-! ## Intersections -/

theorem mergeField_of_notMem {name : String} (h : name ∉ fields.map Prod.fst) :
    mergeField name value fields = fields ++ [(name, value)] := by
  induction fields with
  | nil => rfl
  | cons field fields ih =>
    obtain ⟨n, v⟩ := field
    rw [map_cons, mem_cons, not_or] at h
    rw [mergeField, if_neg (Ne.symm h.1), ih h.2]
    rfl

/-- Object types without a common field are put one behind the other. -/
theorem mergeFields_of_nodup {added : Fields}
    (h : ((fields ++ added).map Prod.fst).Nodup) :
    mergeFields fields added = fields ++ added := by
  induction added generalizing fields with
  | nil => exact (append_nil fields).symm
  | cons field added ih =>
    obtain ⟨name, value⟩ := field
    have hnew : name ∉ fields.map Prod.fst := by
      rw [map_append, map_cons, nodup_append] at h
      exact fun hmem => h.2.2 name hmem name mem_cons_self rfl
    have hstep : mergeFields fields ((name, value) :: added)
        = mergeFields (mergeField name value fields) added := rfl
    rw [hstep, mergeField_of_notMem hnew, ih (by simpa using h), append_assoc]
    rfl

theorem intersectionOf_objects (parts : List Fields) :
    intersectionOf (parts.map object) = object (parts.foldl mergeFields []) := by
  have hfields : (parts.map object).mapM fields? = some parts := by
    induction parts with
    | nil => rfl
    | cons part parts ih =>
      rw [map_cons, mapM_cons, ih]
      rfl
  rw [intersectionOf, hfields]

theorem foldl_mergeFields_of_nodup
    (h : ((fields ++ parts.flatten).map Prod.fst).Nodup) :
    parts.foldl mergeFields fields = fields ++ parts.flatten := by
  induction parts generalizing fields with
  | nil => exact (append_nil fields).symm
  | cons part parts ih =>
    rw [flatten_cons, ← append_assoc] at h
    have hpart : ((fields ++ part).map Prod.fst).Nodup := by
      rw [map_append] at h
      exact (nodup_append.1 h).1
    rw [foldl_cons, mergeFields_of_nodup hpart, ih h, flatten_cons, append_assoc]

/-- An intersection of object types whose fields are all distinct. -/
theorem intersectionOf_of_nodup (h : (parts.flatten.map Prod.fst).Nodup) :
    intersectionOf (parts.map object) = object parts.flatten := by
  rw [intersectionOf_objects, foldl_mergeFields_of_nodup (by simpa using h), nil_append]

end Value

/-! ## Lists of types and properties -/

section Lists

variable {α : Type} {type : α → TypeExpr} {xs : List α}
  {call : String → List Value → Option Value} {env : Env}

theorem evalTypes_map {value : α → Value}
    (h : ∀ x ∈ xs, evalWith call env (type x) = some (value x)) :
    evalTypes call env (xs.map type) = some (xs.map value) := by
  induction xs with
  | nil => rfl
  | cons x xs ih =>
    rw [map_cons, evalTypes, h x mem_cons_self, ih fun y hy => h y (mem_cons_of_mem _ hy)]
    rfl

theorem evalProperties_map {name : α → String} {value : α → Value}
    (h : ∀ x ∈ xs, evalWith call env (type x) = some (value x)) :
    evalProperties call env (xs.map fun x => .required (name x) (type x))
      = some (xs.map fun x => (name x, value x)) := by
  induction xs with
  | nil => rfl
  | cons x xs ih =>
    rw [map_cons, Property.required, evalProperties, h x mem_cons_self,
      ih fun y hy => h y (mem_cons_of_mem _ hy)]
    rfl

theorem evalProperties_append {ps qs : List Property} {fields' : Fields}
    (hps : evalProperties call env ps = some fields)
    (hqs : evalProperties call env qs = some fields') :
    evalProperties call env (ps ++ qs) = some (fields ++ fields') := by
  induction ps generalizing fields with
  | nil =>
    obtain rfl := Option.some.inj hps
    exact hqs
  | cons p ps ih =>
    obtain ⟨name, type, isOptional⟩ := p
    rw [evalProperties] at hps
    split at hps
    · cases hps
    · rename_i hrequired
      simp only [Option.bind_eq_bind, Option.bind_eq_some_iff] at hps
      obtain ⟨value, hvalue, rest, hrest, hfields⟩ := hps
      obtain rfl := Option.some.inj hfields
      rw [cons_append, evalProperties, if_neg hrequired, hvalue, ih hrest]
      rfl

end Lists

/-! ## Variables and conditionals -/

section Conditional

variable {call : String → List Value → Option Value} {env : Env} {x : String} {v : Value}

theorem evalWith_bound (h : env.lookup x = some v) :
    evalWith call env (.ref x) = some v := by
  rw [evalWith, h]

theorem evalWith_free (h : env.lookup x = none) :
    evalWith call env (.ref x) = call x [] := by
  rw [evalWith, h]

variable {pattern matched otherwise : TypeExpr} {p r : Value}

/-- The branch that a conditional takes for one member of the type it
checks. -/
def branch (call : String → List Value → Option Value) (env : Env)
    (pattern matched otherwise : TypeExpr) (value : Value) : Option Value := do
  match (← evalWith call env pattern).match? value.members with
  | some bound => evalWith call (bound ++ env) matched
  | none => evalWith call env otherwise

theorem evalWith_conditional_bound (hx : env.lookup x = some v) :
    evalWith call env (.conditional (.ref x) pattern matched otherwise)
      = (v.members.mapM fun w => branch call
        ((x, w) :: env) pattern matched otherwise w).map Value.unionOf := by
  rw [evalWith]
  simp only [hx]
  rfl

/-- A conditional on a variable that is no union. -/
theorem evalWith_conditional_atom (hx : env.lookup x = some v) (hv : v.IsAtom)
    (hr : branch call ((x, v) :: env) pattern matched otherwise v = some r)
    (hatom : r.IsAtom) :
    evalWith call env (.conditional (.ref x) pattern matched otherwise) = some r := by
  have hmembers : v.members = [v] := hv
  rw [evalWith_conditional_bound hx, hmembers, mapM_cons, hr]
  simp [Value.unionOf_singleton hatom]

theorem branch_matched (hp : evalWith call env pattern = some p) {bound : Env}
    (hmatch : p.match? v.members = some bound) :
    branch call env pattern matched otherwise v
      = evalWith call (bound ++ env) matched := by
  simp [branch, hp, hmatch]

theorem branch_otherwise (hp : evalWith call env pattern = some p)
    (hmatch : p.match? v.members = none) :
    branch call env pattern matched otherwise v = evalWith call env otherwise := by
  simp [branch, hp, hmatch]

/-- A conditional on a variable that is no union, where what the match binds
is a value that may be missing. -/
theorem evalWith_conditional_match {α : Type} {found : Option α} {bound : α → Env}
    (hx : env.lookup x = some v) (hv : v.IsAtom)
    (hp : evalWith call ((x, v) :: env) pattern = some p)
    (hmatch : p.match? v.members = found.map bound)
    (hsome : ∀ a, found = some a →
      evalWith call (bound a ++ (x, v) :: env) matched = some r)
    (hnone : found = none → evalWith call ((x, v) :: env) otherwise = some r)
    (hatom : r.IsAtom) :
    evalWith call env (.conditional (.ref x) pattern matched otherwise) = some r := by
  refine evalWith_conditional_atom hx hv ?_ hatom
  cases hfound : found with
  | none =>
    rw [hfound] at hmatch
    rw [branch_otherwise hp hmatch]
    exact hnone hfound
  | some a =>
    rw [hfound] at hmatch
    rw [branch_matched hp hmatch]
    exact hsome a hfound

/-- A conditional on a literal. -/
theorem evalWith_conditional_text (s : String) :
    evalWith call env (.conditional (.text s) pattern matched otherwise)
      = branch call env pattern matched otherwise (.text s) := by
  rw [TypeExpr.text, evalWith]
  · rfl
  · simp

end Conditional

/-! ## Predefined types -/

namespace Value

/-- The union of those literals that are kept; the empty union stands for
each of the others. -/
theorem unionOf_filter (texts : List String) (keep : String → Bool) :
    unionOf (texts.map fun t => if keep t then text t else union [])
      = oneOf (texts.filter keep) := by
  have hmembers : (texts.map fun t => if keep t then text t else union []).flatMap members
      = ((texts.filter keep).map text).flatMap members := by
    induction texts with
    | nil => rfl
    | cons t texts ih =>
      cases hkeep : keep t with
      | true => simp [hkeep, ih]
      | false => simp [hkeep, ih, members]
  rw [unionOf, hmembers]
  rfl

theorem pick_oneOf (fields : Fields) (texts : List String) :
    pick fields (oneOf texts) = fields.filter fun field => decide (field.1 ∈ texts) := by
  refine filter_congr fun field _ => ?_
  rw [members_oneOf, any_map, Bool.eq_iff_iff, any_eq_true, decide_eq_true_iff]
  constructor
  · rintro ⟨t, ht, heq⟩
    have : t = field.1 := by simpa [isLiteral_text] using heq
    exact this ▸ ht
  · intro hmem
    exact ⟨field.1, hmem, by simp [isLiteral_text]⟩

theorem unionOf_oneOf_cons (texts more : List String) :
    unionOf (oneOf texts :: more.map text) = oneOf (texts ++ more) := by
  rw [unionOf, flatMap_cons, members_oneOf, flatMap_members_texts, ← map_append,
    ofMembers_texts]

/-- A pattern with one field. -/
theorem match?_field {v : Value} (hv : v.IsAtom) (name : String) (pattern : Value) :
    (object [(name, pattern)]).match? v.members
      = (v.field? name).bind pattern.match? := by
  have hmembers : v.members = [v] := hv
  rw [hmembers, match?, matchFields?, mapM_cons]
  cases v.field? name with
  | none => rfl
  | some values =>
    simp only [mapM_nil, Option.pure_def, Option.bind_eq_bind, Option.bind_some,
      flatten_cons, flatten_nil, append_nil, matchFields?]
    cases pattern.match? values <;> rfl

end Value

/-- A conditional that takes the literals of `T` apart by whether they are
in `U`. -/
theorem evalWith_filter {call : String → List Value → Option Value}
    {matched otherwise : TypeExpr} (texts others : List String) (keep : String → Bool)
    (h : ∀ t, evalWith call [("T", .text t), ("T", .oneOf texts), ("U", .oneOf others)]
      (if t ∈ others then matched else otherwise)
      = some (if keep t then .text t else .union [])) :
    evalWith call [("T", .oneOf texts), ("U", .oneOf others)]
      (.conditional (.ref "T") (.ref "U") matched otherwise)
        = some (.oneOf (texts.filter keep)) := by
  have hbound : List.lookup "T" [("T", Value.oneOf texts), ("U", Value.oneOf others)]
      = some (.oneOf texts) := rfl
  have hbranch : ∀ t ∈ texts, branch call
      [("T", .text t), ("T", .oneOf texts), ("U", .oneOf others)]
      (.ref "U") matched otherwise (.text t)
        = some (if keep t then .text t else .union []) := by
    intro t _
    have hpattern :
        evalWith call [("T", .text t), ("T", .oneOf texts),
          ("U", .oneOf others)] (.ref "U")
        = some (.oneOf others) := rfl
    have hmatch := Value.match?_oneOf others t
    have ht := h t
    by_cases hmem : t ∈ others
    · rw [if_pos hmem] at ht hmatch
      rw [branch_matched hpattern hmatch]
      exact ht
    · rw [if_neg hmem] at ht hmatch
      rw [branch_otherwise hpattern hmatch]
      exact ht
  rw [evalWith_conditional_bound hbound, Value.members_oneOf, mapM_map_eq_some hbranch,
    Option.map_some, Value.unionOf_filter]

theorem predefined_extract (texts others : List String) :
    predefined "Extract" [.oneOf texts, .oneOf others]
      = some (.oneOf (texts.filter fun t => decide (t ∈ others))) := by
  refine evalWith_filter texts others (fun t => decide (t ∈ others)) fun t => ?_
  by_cases ht : t ∈ others <;> simp [ht, evalWith]

theorem predefined_pick (fields : Fields) (names : Value) :
    predefined "Pick" [.object fields, names]
      = some (.object (Value.pick fields names)) := rfl

theorem predefined_record (key value : Value) :
    predefined "Record" [key, value] = some (.record key value) :=
  rfl

/-- `Omit` leaves the other fields. -/
theorem predefined_omit (fields : Fields) (names : List String) :
    predefined "Omit" [.object fields, .oneOf names]
      = some (.object (fields.filter fun field => decide (field.1 ∉ names))) := by
  change evalWith (utilityTypes.call builtin? 1)
    [("T", .object fields), ("K", .oneOf names)]
    (.generic "Pick" [.ref "T", .generic "Exclude" [.keyof (.ref "T"), .ref "K"]]) = _
  have hkeys : evalTypes (utilityTypes.call builtin? 1)
      [("T", .object fields), ("K", .oneOf names)]
      [.keyof (.ref "T"), .ref "K"] = some [.oneOf (fields.map Prod.fst),
        .oneOf names] := rfl
  have hexclude : evalWith (utilityTypes.call builtin? 1)
      [("T", .object fields), ("K", .oneOf names)]
      (.generic "Exclude" [.keyof (.ref "T"), .ref "K"])
        = some (.oneOf ((fields.map Prod.fst).filter fun t => decide (t ∉ names))) := by
    rw [evalWith, hkeys]
    refine evalWith_filter _ names (fun t => decide (t ∉ names)) fun t => ?_
    by_cases ht : t ∈ names <;> simp [ht, evalWith]
  have hobject : evalWith (utilityTypes.call builtin? 1)
      [("T", .object fields), ("K", .oneOf names)]
      (.ref "T") = some (.object fields) := rfl
  rw [evalWith, evalTypes, hobject, evalTypes, hexclude]
  have hpick :
      Value.pick fields
        (.oneOf ((fields.map Prod.fst).filter fun t => decide (t ∉ names)))
      = fields.filter fun field => decide (field.1 ∉ names) := by
    rw [Value.pick_oneOf]
    refine filter_congr fun field hfield => ?_
    have hmem : field.1 ∈ fields.map Prod.fst := mem_map_of_mem hfield
    simp only [mem_filter, hmem, true_and, decide_eq_true_eq]
  exact (predefined_pick _ _).trans (congrArg (some ∘ Value.object) hpick)

/-! ## Declared names -/

namespace Scope

variable {d : Declaration} {s : Scope}
  {outer : String → List Value → Option Value} {n : Nat} {name : String}

/-- The types that a scope declares. -/
def typeNames (s : Scope) : List String :=
  (s.filter Declaration.isType).map Declaration.name

theorem declared_of_mem (hnames : s.typeNames.Nodup) (hd : d ∈ s)
    (htype : d.isType = true) :
    s.declared d.name = [d] := by
  have hsplit :
      s.declared d.name = (s.filter Declaration.isType).filter (·.name == d.name) := by
    rw [declared, filter_filter]
    exact filter_congr fun _ _ => Bool.and_comm ..
  rw [hsplit]
  exact filter_of_mem hnames (mem_filter.2 ⟨hd, htype⟩)

theorem declared_of_notMem (h : name ∉ s.typeNames) : s.declared name = [] := by
  refine filter_eq_nil_iff.2 fun d hd hname => h ?_
  rw [Bool.and_eq_true, beq_iff_eq] at hname
  exact mem_map.2 ⟨d, mem_filter.2 ⟨hd, hname.1⟩, hname.2⟩

/-- A name that is not declared has its outer meaning. -/
theorem call_of_notMem (h : name ∉ s.typeNames) (args : List Value) :
    s.call outer (n + 1) name args = outer name args := by
  rw [call, declared_of_notMem h]

theorem call_typeAlias (hnames : s.typeNames.Nodup) {head : Head} {type : TypeExpr}
    (hd : .typeAlias head type ∈ s) {args : List Value}
    (hargs : head.typeParameters.length = args.length) :
    s.call outer (n + 1) head.name args
      = evalWith (s.call outer n)
        ((head.typeParameters.map TypeParameter.name).zip args) type := by
  have hdeclared : s.declared head.name = [.typeAlias head type] :=
    declared_of_mem hnames hd rfl
  rw [call, hdeclared]
  exact if_pos hargs

theorem call_interface (hnames : s.typeNames.Nodup) (hd : d ∈ s)
    {properties : List Property} (hplain : d.plainProperties? = some properties) :
    s.call outer (n + 1) d.name []
      = (evalProperties (s.call outer n) [] properties).map .object := by
  match d, hplain with
  | .interface { typeParameters := [], .. } [] properties, rfl =>
    rw [call, declared_of_mem hnames hd rfl]
    cases hfields : evalProperties (s.call outer n) [] properties with
    | none => simp [Declaration.plainProperties?, hfields]
    | some fields => simp [Declaration.plainProperties?, hfields]

end Scope

end TypeScript

end TypedContent

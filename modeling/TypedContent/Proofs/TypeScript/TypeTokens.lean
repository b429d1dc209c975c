import TypedContent.Proofs.TypeScript.Tokens

/-!
# What the scanner finds in a printed type

`TypeExpr.tokens` lists the tokens of a type, with the parentheses that the
printer writes. A type can be printed at all if its names are names, its
unions and intersections have members and nothing in it is copied text
(`TypeExpr.Writable`). The scanner then finds just these tokens, whether the
type is printed on one line or with one branch a line, unless a text that
the type quotes has a line break (`lexes_render`, `lexes_renderChain`).
-/

namespace TypedContent

open List

namespace TypeScript

variable {args members : List TypeExpr}
  {value check pattern matched otherwise item : TypeExpr}
  {properties : List Property} {name : String}

/-! ## The nodes of a type -/

theorem Property.sizeOf_type_lt {p : Property} (h : p ∈ properties) :
    sizeOf p.type < 1 + sizeOf properties := by
  have hmem := sizeOf_lt_of_mem h
  obtain ⟨name, type, isOptional⟩ := p
  rw [Property.mk.sizeOf_spec] at hmem
  rw [Property.type]
  omega

namespace TypeExpr

variable {t : TypeExpr}

mutual

/-- A type and all types in it. -/
def nodes : TypeExpr → List TypeExpr
  | primitive kind => [primitive kind]
  | array item => array item :: nodes item
  | readonlyArray item => readonlyArray item :: nodes item
  | union members => union members :: nodesOfTypes members
  | intersection members => intersection members :: nodesOfTypes members
  | object properties => object properties :: nodesOfProperties properties
  | record key value => record key value :: (nodes key ++ nodes value)
  | literal value => [literal value]
  | ref name => [ref name]
  | generic name args => generic name args :: nodesOfTypes args
  | conditional check pattern matched otherwise =>
    conditional check pattern matched otherwise
      :: (nodes check ++ nodes pattern ++ nodes matched ++ nodes otherwise)
  | infer name => [infer name]
  | keyof item => keyof item :: nodes item
  | raw text => [raw text]

def nodesOfTypes : List TypeExpr → List TypeExpr
  | [] => []
  | type :: types => nodes type ++ nodesOfTypes types

def nodesOfProperties : List Property → List TypeExpr
  | [] => []
  | .mk _ type _ :: properties => nodes type ++ nodesOfProperties properties

end

theorem nodesOfTypes_eq (types : List TypeExpr) :
    nodesOfTypes types = types.flatMap nodes := by
  induction types with
  | nil => rfl
  | cons type types ih => rw [nodesOfTypes, ih, flatMap_cons]

theorem nodesOfProperties_eq (properties : List Property) :
    nodesOfProperties properties = properties.flatMap fun p => p.type.nodes := by
  induction properties with
  | nil => rfl
  | cons p properties ih =>
    obtain ⟨name, type, isOptional⟩ := p
    rw [nodesOfProperties, ih, flatMap_cons, Property.type]

/-- The types that a type is made of directly. -/
def children : TypeExpr → List TypeExpr
  | array item | readonlyArray item | keyof item => [item]
  | union members | intersection members => members
  | object properties => properties.map Property.type
  | record key value => [key, value]
  | generic _ args => args
  | conditional check pattern matched otherwise => [check, pattern, matched, otherwise]
  | primitive _ | literal _ | ref _ | infer _ | raw _ => []

theorem nodes_eq (t : TypeExpr) : t.nodes = t :: t.children.flatMap nodes := by
  cases t with
  | union | intersection | generic => rw [nodes, nodesOfTypes_eq, children]
  | object => rw [nodes, nodesOfProperties_eq, children, flatMap_map]
  | _ => simp [nodes, children]

theorem sizeOf_lt_of_mem_children {s : TypeExpr} (h : s ∈ t.children) :
    sizeOf s < sizeOf t := by
  cases t with
  | union members | intersection members | generic _ members =>
    have hmem := sizeOf_lt_of_mem (show s ∈ members from h)
    simp only [union.sizeOf_spec, intersection.sizeOf_spec, generic.sizeOf_spec]
    omega
  | object properties =>
    obtain ⟨p, hp, rfl⟩ := mem_map.1 h
    have hsmaller := Property.sizeOf_type_lt hp
    rw [object.sizeOf_spec]
    omega
  | array | readonlyArray | keyof | record | conditional =>
    simp only [children, mem_cons, not_mem_nil, or_false] at h
    simp only [array.sizeOf_spec, readonlyArray.sizeOf_spec, keyof.sizeOf_spec,
      record.sizeOf_spec, conditional.sizeOf_spec]
    grind
  | _ => cases h

/-- Every node of a type has a property. -/
def Everywhere (p : TypeExpr → Bool) (t : TypeExpr) : Prop :=
  ∀ s ∈ t.nodes, p s = true

instance (p : TypeExpr → Bool) (t : TypeExpr) : Decidable (t.Everywhere p) :=
  inferInstanceAs (Decidable (∀ s ∈ t.nodes, p s = true))

section Everywhere

variable {p : TypeExpr → Bool}

theorem everywhere_iff :
    Everywhere p t ↔ p t = true ∧ ∀ s ∈ t.children, Everywhere p s := by
  rw [Everywhere, nodes_eq, forall_mem_cons, forall_mem_flatMap]
  rfl

@[simp] theorem everywhere_primitive {kind : Primitive} :
    Everywhere p (primitive kind) ↔ p (primitive kind) = true :=
  forall_mem_singleton

@[simp] theorem everywhere_literal {value : Literal} :
    Everywhere p (literal value) ↔ p (literal value) = true :=
  forall_mem_singleton

@[simp] theorem everywhere_ref : Everywhere p (ref name) ↔ p (ref name) = true :=
  forall_mem_singleton

@[simp] theorem everywhere_infer : Everywhere p (infer name) ↔ p (infer name) = true :=
  forall_mem_singleton

@[simp] theorem everywhere_raw {text : String} :
    Everywhere p (raw text) ↔ p (raw text) = true :=
  forall_mem_singleton

@[simp] theorem everywhere_array :
    Everywhere p (array item) ↔ p (array item) = true ∧ Everywhere p item :=
  forall_mem_cons

@[simp] theorem everywhere_readonlyArray :
    Everywhere p (readonlyArray item)
      ↔ p (readonlyArray item) = true ∧ Everywhere p item :=
  forall_mem_cons

@[simp] theorem everywhere_keyof :
    Everywhere p (keyof item) ↔ p (keyof item) = true ∧ Everywhere p item :=
  forall_mem_cons

@[simp] theorem everywhere_union :
    Everywhere p (union members) ↔ p (union members) = true ∧ ∀ m ∈ members,
      Everywhere p m :=
  everywhere_iff

@[simp] theorem everywhere_intersection :
    Everywhere p (intersection members)
      ↔ p (intersection members) = true ∧ ∀ m ∈ members, Everywhere p m :=
  everywhere_iff

@[simp] theorem everywhere_generic :
    Everywhere p (generic name args)
      ↔ p (generic name args) = true ∧ ∀ t ∈ args, Everywhere p t :=
  everywhere_iff

@[simp] theorem everywhere_object :
    Everywhere p (object properties)
      ↔ p (object properties) = true ∧ ∀ q ∈ properties, Everywhere p q.type := by
  rw [everywhere_iff, children, forall_mem_map]

@[simp] theorem everywhere_record {key : TypeExpr} :
    Everywhere p (record key value)
      ↔ p (record key value) = true ∧ Everywhere p key ∧ Everywhere p value := by
  rw [everywhere_iff, children, forall_mem_cons, forall_mem_singleton]

@[simp] theorem everywhere_conditional :
    Everywhere p (conditional check pattern matched otherwise)
      ↔ p (conditional check pattern matched otherwise) = true
        ∧ Everywhere p check ∧ Everywhere p pattern ∧ Everywhere p matched
          ∧ Everywhere p otherwise := by
  rw [everywhere_iff, children, forall_mem_cons, forall_mem_cons, forall_mem_cons,
    forall_mem_singleton]

end Everywhere

end TypeExpr

/-! ## Tokens -/

/-- Tokens in parentheses if they need them. -/
def enclosed (needed : Bool) (ts : List Token) : List Token :=
  if needed then .mark '(' :: (ts ++ [.mark ')']) else ts

def keyToken (name : String) : Token :=
  if needsQuotes name then .text name else .word name

def Literal.tokens : Literal → List Token
  | .string value => [.text value]
  | .int (.ofNat n) => [.number n]
  | .int (.negSucc n) => [.mark '-', .number (n + 1)]
  | .bool true => [.word "true"]
  | .bool false => [.word "false"]
  | .null => [.word "null"]

namespace TypeExpr

mutual

/-- The tokens of a type, with the parentheses of its printed form. -/
def tokens : TypeExpr → List Token
  | primitive kind => [.word kind.render]
  | array item =>
    enclosed item.isLooserThanPostfix (tokens item) ++ [.mark '[', .mark ']']
  | readonlyArray item =>
    .word "readonly" :: (enclosed item.isLooserThanPostfix (tokens item)
      ++ [.mark '[', .mark ']'])
  | union members => [.mark '|'].intercalate (tokensOfTypes isConditional members)
  | intersection members =>
    [.mark '&'].intercalate (tokensOfTypes isLooserThanIntersection members)
  | object properties =>
    .mark '\x7b' :: ([.mark ';'].intercalate (tokensOfProperties properties)
      ++ [.mark '\x7d'])
  | record key value =>
    .word "Record" :: .mark '<'
      :: ([.mark ','].intercalate [tokens key, tokens value] ++ [.mark '>'])
  | literal value => value.tokens
  | ref name => [.word name]
  | generic name args =>
    .word name :: .mark '<'
      :: ([.mark ','].intercalate (tokensOfTypes (fun _ => false) args) ++ [.mark '>'])
  | conditional check pattern matched otherwise =>
    enclosed check.isConditional (tokens check) ++ .word "extends"
      :: (enclosed pattern.isConditional (tokens pattern)
      ++ .mark '?' :: (tokens matched ++ .mark ':' :: tokens otherwise))
  | infer name => [.word "infer", .word name]
  | keyof item => .word "keyof" :: enclosed item.isLooserThanPostfix (tokens item)
  | raw _ => []

def tokensOfTypes (wrap : TypeExpr → Bool) : List TypeExpr → List (List Token)
  | [] => []
  | type :: types => enclosed (wrap type) (tokens type) :: tokensOfTypes wrap types

def tokensOfProperties : List Property → List (List Token)
  | [] => []
  | .mk name type isOptional :: properties =>
    (keyToken name :: ((if isOptional then [.mark '?'] else [])
      ++ .mark ':' :: tokens type))
      :: tokensOfProperties properties

end

end TypeExpr

def Property.tokens (p : Property) : List Token :=
  keyToken p.name :: ((if p.isOptional then [.mark '?'] else [])
    ++ .mark ':' :: p.type.tokens)

namespace TypeExpr

theorem tokensOfTypes_eq (wrap : TypeExpr → Bool) (types : List TypeExpr) :
    tokensOfTypes wrap types = types.map fun type =>
      enclosed (wrap type) type.tokens := by
  induction types with
  | nil => rfl
  | cons type types ih => rw [tokensOfTypes, ih, map_cons]

theorem tokensOfProperties_eq (properties : List Property) :
    tokensOfProperties properties = properties.map Property.tokens := by
  induction properties with
  | nil => rfl
  | cons p properties ih =>
    obtain ⟨name, type, isOptional⟩ := p
    rw [tokensOfProperties, ih, map_cons]
    rfl

theorem renderTypes_eq (wrap : TypeExpr → Bool) (types : List TypeExpr) :
    renderTypes wrap types = types.map fun type =>
      parenthesize (wrap type) type.render := by
  induction types with
  | nil => rfl
  | cons type types ih => rw [renderTypes, ih, map_cons]

theorem renderProperties_eq (properties : List Property) :
    renderProperties properties = properties.map Property.render := by
  induction properties with
  | nil => rfl
  | cons p properties ih =>
    obtain ⟨name, type, isOptional⟩ := p
    rw [renderProperties, ih, map_cons]
    rfl

end TypeExpr

/-! ## Types that can be printed -/

/-- The words that are no names. -/
def reservedNames : List String :=
  ["break", "case", "catch", "class", "const", "continue", "debugger", "default",
    "delete", "do", "else", "enum", "export", "extends", "false", "finally", "for",
    "function", "if", "import", "in", "instanceof", "new", "null", "return", "super",
    "switch", "this", "throw", "true", "try", "typeof", "var", "void", "while", "with"]

def Alphabet.isName (a : Alphabet) (name : String) : Bool :=
  a.isWord name && !reservedNames.contains name

namespace TypeExpr

/-- Whether a node has what its printed form needs. -/
def isWritable (a : Alphabet) : TypeExpr → Bool
  | union members | intersection members => !members.isEmpty
  | ref name | generic name _ | infer name => a.isName name
  | raw _ => false
  | primitive _ | array _ | readonlyArray _ | object _ | record _ _ | literal _
  | conditional _ _ _ _ | keyof _ => true

/-- Every name is a name, no union or intersection is empty and no text is
copied. -/
def Writable (a : Alphabet) (t : TypeExpr) : Prop :=
  t.Everywhere (isWritable a)

instance (a : Alphabet) (t : TypeExpr) : Decidable (t.Writable a) :=
  inferInstanceAs (Decidable (t.Everywhere (isWritable a)))

/-- Whether a node itself quotes a text with a line break. -/
def breaksLine : TypeExpr → Bool
  | literal (.string value) => value.toList.any isLineBreak
  | object properties => properties.any fun p => p.name.toList.any isLineBreak
  | _ => false

/-- Whether a type quotes a text with a line break. -/
def isBroken (t : TypeExpr) : Bool :=
  t.nodes.any breaksLine

theorem any_nodesOfTypes (types : List TypeExpr) :
    (nodesOfTypes types).any breaksLine = types.any isBroken := by
  rw [nodesOfTypes_eq, any_flatMap]
  rfl

theorem isBroken_union (members : List TypeExpr) :
    (union members).isBroken = members.any isBroken :=
  any_nodesOfTypes members

theorem isBroken_intersection (members : List TypeExpr) :
    (intersection members).isBroken = members.any isBroken :=
  any_nodesOfTypes members

theorem isBroken_generic (name : String) (args : List TypeExpr) :
    (generic name args).isBroken = args.any isBroken :=
  any_nodesOfTypes args

theorem isBroken_object (properties : List Property) :
    (object properties).isBroken = properties.any fun p =>
      p.name.toList.any isLineBreak || p.type.isBroken := by
  rw [isBroken, nodes, nodesOfProperties_eq, any_cons, any_flatMap, breaksLine]
  induction properties with
  | nil => rfl
  | cons p properties ih =>
    rw [any_cons, any_cons, any_cons, ← ih, isBroken]
    ac_rfl

theorem isBroken_conditional (check pattern matched otherwise : TypeExpr) :
    (conditional check pattern matched otherwise).isBroken
      = (check.isBroken || pattern.isBroken
        || (matched.isBroken || otherwise.isBroken)) := by
  simp [isBroken, nodes, breaksLine, Bool.or_assoc]

section Writable

attribute [local simp] isWritable

variable {a : Alphabet}

@[simp] theorem writable_array : Writable a (array item) ↔ Writable a item := by
  simp [Writable]

@[simp] theorem writable_readonlyArray :
    Writable a (readonlyArray item) ↔ Writable a item := by
  simp [Writable]

@[simp] theorem writable_keyof : Writable a (keyof item) ↔ Writable a item := by
  simp [Writable]

@[simp] theorem writable_union :
    Writable a (union members) ↔ members ≠ [] ∧ ∀ m ∈ members, Writable a m := by
  simp [Writable]

@[simp] theorem writable_intersection :
    Writable a (intersection members) ↔ members ≠ [] ∧ ∀ m ∈ members, Writable a m := by
  simp [Writable]

@[simp] theorem writable_object :
    Writable a (object properties) ↔ ∀ p ∈ properties, Writable a p.type := by
  simp [Writable]

@[simp] theorem writable_record {key : TypeExpr} :
    Writable a (record key value) ↔ Writable a key ∧ Writable a value := by
  simp [Writable]

@[simp] theorem writable_ref : Writable a (ref name) ↔ a.isName name = true := by
  simp [Writable]

@[simp] theorem writable_infer : Writable a (infer name) ↔ a.isName name = true := by
  simp [Writable]

@[simp] theorem writable_generic :
    Writable a (generic name args) ↔ a.isName name = true ∧ ∀ t ∈ args, Writable a t := by
  simp [Writable]

@[simp] theorem writable_conditional :
    Writable a (conditional check pattern matched otherwise)
      ↔ Writable a check ∧ Writable a pattern ∧ Writable a matched
        ∧ Writable a otherwise := by
  simp [Writable]

@[simp] theorem not_writable_raw {text : String} : ¬ Writable a (raw text) := by
  simp [Writable]

end Writable

end TypeExpr

/-! ## Scanning a type -/

namespace Alphabet

open TypeExpr

variable {b : Bool} {ts : List Token} {a : Alphabet}

theorem isWord_of_isName (h : a.isName name = true) : a.isWord name = true :=
  (Bool.and_eq_true_iff.1 h).1

theorem lexes_primitive (a : Alphabet) (kind : Primitive) :
    a.Lexes kind.render false [.word kind.render] := by
  refine lexes_word (isWord_of_isIdentifier ?_)
  cases kind <;> decide

theorem lexes_decimal (a : Alphabet) (n : Int) :
    a.Lexes (Text.decimal n) false (Literal.int n).tokens := by
  cases n with
  | ofNat n =>
    intro rest hrest
    rw [Text.decimal, String.toList_ofList, lex_number n hrest]
    rfl
  | negSucc n =>
    intro rest hrest
    have htext : (Text.decimal (.negSucc n)).toList ++ rest
        = '-' :: (Nat.toDigits 10 (n + 1) ++ rest) := by
      simp [Text.decimal]
    rw [htext, lex_mark (by decide), lex_number (n + 1) hrest, Option.map_map]
    rfl

theorem lexes_key (a : Alphabet) (name : String) :
    a.Lexes (key name) (name.toList.any isLineBreak) [keyToken name] := by
  unfold key keyToken
  split
  · exact (lexes_text a name).lexes
  · rename_i hplain
    have hword : isIdentifier name.toList = true := by simpa [needsQuotes] using hplain
    have hbreak : name.toList.any isLineBreak = false := by
      refine any_eq_false.2 fun c hc hline => ?_
      have hpart : isIdentifierPart c = true := by
        cases hname : name.toList with
        | nil => simp [hname] at hc
        | cons d ds =>
          rw [hname, isIdentifier, Bool.and_eq_true, all_eq_true] at hword
          exact hword.2 c (hname ▸ hc)
      simp only [isLineBreak, Bool.or_eq_true, beq_iff_eq] at hline
      rcases hline with rfl | rfl <;> exact absurd hpart (by decide)
    rw [hbreak]
    exact lexes_word (isWord_of_isIdentifier hword)

theorem lexes_literal (a : Alphabet) (value : Literal) :
    a.Lexes value.render (literal value).isBroken value.tokens := by
  cases value with
  | string s => simpa [isBroken, nodes, breaksLine, Literal.render,
    Literal.tokens] using (lexes_text a s).lexes
  | int n => simpa [isBroken, nodes, breaksLine, Literal.render] using lexes_decimal a n
  | bool b =>
    cases b with
    | false => exact lexes_word (isWord_of_isIdentifier (by decide))
    | true => exact lexes_word (isWord_of_isIdentifier (by decide))
  | null => exact lexes_word (isWord_of_isIdentifier (by decide))

section

variable {β : Type} {text : β → String} {broken : β → Bool}
  {toks : β → List Token} {bs : List β}

/-- A separator of one punctuation mark between members. -/
theorem lexes_separated (sep : String) {t : Token}
    (hsep : sep.toList.all isPunctuation = true) (htoken : punctuation sep = [t])
    (h : ∀ b ∈ bs, a.Lexes (text b) (broken b) (toks b)) :
    a.Lexes (Text.joinWith sep (bs.map text)) (bs.any broken)
      ([t].intercalate (bs.map toks)) := by
  have hopens := opens_punctuation (a := a) hsep
  rw [htoken] at hopens
  refine lexes_joinWith hopens (begins_of_isPunctuation ?_) h
  cases hs : sep.toList with
  | nil => simp [punctuation, hs] at htoken
  | cons c cs =>
    rw [hs, all_cons, Bool.and_eq_true] at hsep
    exact hsep.1

theorem lexes_angled (h : ∀ b ∈ bs, a.Lexes (text b) (broken b) (toks b)) :
    a.Opens (angled (bs.map text)) (bs.any broken)
      (.mark '<' :: ([.mark ','].intercalate (bs.map toks) ++ [.mark '>'])) := by
  have hopening : a.Opens "<" false [.mark '<'] := opens_punctuation rfl
  have hclosing : a.Opens ">" false [.mark '>'] := opens_punctuation rfl
  have hargs := lexes_separated ", " (t := .mark ',') rfl rfl h
  have hall := hopening.andThen (hargs.closedBy hclosing (begins_of_isPunctuation rfl))
  simpa [angled, String.append_assoc] using hall

theorem lexes_braced (h : ∀ b ∈ bs, a.Lexes (text b) (broken b) (toks b)) :
    a.Opens (braced "; " (bs.map text)) (bs.any broken)
      (.mark '\x7b' :: ([.mark ';'].intercalate (bs.map toks) ++ [.mark '\x7d'])) := by
  cases bs with
  | nil => exact opens_punctuation (s := "\x7b\x7d") rfl
  | cons b bs =>
    have hopening : a.Opens "\x7b " false [.mark '\x7b'] := opens_punctuation rfl
    have hclosing : a.Opens " \x7d" false [.mark '\x7d'] := opens_punctuation rfl
    have hentries := lexes_separated "; " (t := .mark ';') rfl rfl h
    have hall :=
      hopening.andThen (hentries.closedBy hclosing (begins_of_isPunctuation rfl))
    simpa [braced, String.append_assoc] using hall

end

theorem begins_angled (a : Alphabet) (entries : List String) :
    a.Begins (angled entries) := by
  refine begins_of_isPunctuation ?_
  simp [angled, isPunctuation, marks]

theorem lexes_property {p : Property}
    (h : a.Lexes p.type.render p.type.isBroken p.type.tokens) :
    a.Lexes p.render (p.name.toList.any isLineBreak || p.type.isBroken) p.tokens := by
  have hmark : a.Opens ((if p.isOptional then "?" else "") ++ ": ") false
      ((if p.isOptional then [.mark '?'] else []) ++ [.mark ':']) := by
    cases p.isOptional with
    | true => exact opens_punctuation rfl
    | false => exact opens_punctuation rfl
  have hbegins : a.Begins ((if p.isOptional then "?" else "") ++ ": ") := by
    cases p.isOptional with
    | true => exact begins_of_isPunctuation rfl
    | false => exact begins_of_isPunctuation rfl
  have hall := ((lexes_key a p.name).closedBy hmark hbegins).andThen h
  simpa [Property.render, Property.tokens, String.append_assoc] using hall

/-- The check of a conditional and its pattern, up to what follows the
pattern. -/
theorem opens_condition {check pattern gap : String} {b' : Bool} {us : List Token}
    (hcheck : a.Lexes check b ts) (hpattern : a.Lexes pattern b' us)
    (hgap : a.Opens gap false [.mark '?']) (hbegins : a.Begins gap) :
    a.Opens (check ++ " extends " ++ pattern ++ gap) (b || b')
      (ts ++ .word "extends" :: (us ++ [.mark '?'])) := by
  have hspace : a.Opens " " false [] := opens_punctuation rfl
  have hword : a.Opens "extends " false [.word "extends"] :=
    opens_keyword "extends" (by decide)
  have hextends := hspace.andThen hword
  rw [show " " ++ "extends " = " extends " from rfl] at hextends
  have hall := (hcheck.closedBy hextends (begins_of_isPunctuation rfl)).andThen
    (hpattern.closedBy hgap hbegins)
  simpa [String.append_assoc] using hall

/-- The scanner finds the tokens of a type in its printed form. -/
theorem lexes_render (t : TypeExpr) (h : t.Writable a) :
    a.Lexes t.render t.isBroken t.tokens := by
  match t with
  | primitive kind => exact lexes_primitive a kind
  | literal value => exact lexes_literal a value
  | ref name => exact lexes_word (isWord_of_isName (writable_ref.1 h))
  | raw text => exact absurd h not_writable_raw
  | infer name =>
    have hkeyword : a.Opens "infer " false [.word "infer"] :=
      opens_keyword "infer" (by decide)
    exact hkeyword.andThen (lexes_word (isWord_of_isName (writable_infer.1 h)))
  | keyof item =>
    have hitem := lexes_render item (writable_keyof.1 h)
    have hkeyword : a.Opens "keyof " false [.word "keyof"] :=
      opens_keyword "keyof" (by decide)
    exact hkeyword.andThen (lexes_parenthesize hitem item.isLooserThanPostfix)
  | array item =>
    have hitem := lexes_render item (writable_array.1 h)
    have hbrackets : a.Opens "[]" false [.mark '[', .mark ']'] := opens_punctuation rfl
    have hall := (lexes_parenthesize hitem item.isLooserThanPostfix).closedBy hbrackets
      (begins_of_isPunctuation rfl)
    rw [Bool.or_false] at hall
    exact hall.lexes
  | readonlyArray item =>
    have hitem := lexes_render item (writable_readonlyArray.1 h)
    have hkeyword : a.Opens "readonly " false [.word "readonly"] :=
      opens_keyword "readonly" (by decide)
    have hbrackets : a.Opens "[]" false [.mark '[', .mark ']'] := opens_punctuation rfl
    have hall := hkeyword.andThen
      ((lexes_parenthesize hitem item.isLooserThanPostfix).closedBy hbrackets
        (begins_of_isPunctuation rfl))
    rw [Bool.or_false, ← String.append_assoc] at hall
    exact hall.lexes
  | union members =>
    have hmembers :
        ∀ m ∈ members, a.Lexes (parenthesize m.isConditional m.render) m.isBroken
        (enclosed m.isConditional m.tokens) := fun m hm =>
      lexes_parenthesize (lexes_render m ((writable_union.1 h).2 m hm)) m.isConditional
    have hall := lexes_separated " | " (t := .mark '|') rfl rfl hmembers
    rw [isBroken_union, render, tokens, renderTypes_eq, tokensOfTypes_eq]
    exact hall
  | intersection members =>
    have hmembers : ∀ m ∈ members, a.Lexes
        (parenthesize m.isLooserThanIntersection m.render) m.isBroken
        (enclosed m.isLooserThanIntersection m.tokens) := fun m hm =>
      lexes_parenthesize (lexes_render m ((writable_intersection.1 h).2 m hm))
        m.isLooserThanIntersection
    have hall := lexes_separated " & " (t := .mark '&') rfl rfl hmembers
    rw [isBroken_intersection, render, tokens, renderTypes_eq, tokensOfTypes_eq]
    exact hall
  | object properties =>
    have hproperties : ∀ p ∈ properties,
        a.Lexes p.render (p.name.toList.any isLineBreak || p.type.isBroken)
        p.tokens := by
      intro p hp
      have hsmaller := Property.sizeOf_type_lt hp
      exact lexes_property (lexes_render p.type (writable_object.1 h p hp))
    rw [isBroken_object, render, tokens, renderProperties_eq, tokensOfProperties_eq]
    exact (lexes_braced hproperties).lexes
  | record key value =>
    have hkey := lexes_render key (writable_record.1 h).1
    have hvalue := lexes_render value (writable_record.1 h).2
    have hword : a.Lexes "Record" false [.word "Record"] :=
      lexes_word (isWord_of_isIdentifier (by decide))
    have hargs : ∀ t ∈ [key, value], a.Lexes t.render t.isBroken t.tokens :=
      forall_mem_cons.2 ⟨hkey, forall_mem_singleton.2 hvalue⟩
    have hall := (hword.closedBy (lexes_angled hargs) (begins_angled a _)).lexes
    simpa [render, tokens, isBroken, nodes, breaksLine] using hall
  | generic name args =>
    have hargs : ∀ t ∈ args, a.Lexes (parenthesize false t.render) t.isBroken
        (enclosed false t.tokens) := fun t ht =>
      lexes_parenthesize (lexes_render t ((writable_generic.1 h).2 t ht)) false
    have hword := lexes_word (isWord_of_isName (writable_generic.1 h).1)
    rw [isBroken_generic, render, tokens, renderTypes_eq, tokensOfTypes_eq]
    exact (hword.closedBy (lexes_angled hargs) (begins_angled a _)).lexes
  | conditional check pattern matched otherwise =>
    obtain ⟨hcheck, hpattern, hmatched, hotherwise⟩ := writable_conditional.1 h
    have hgap : a.Opens " ? " false [.mark '?'] := opens_punctuation rfl
    have hcolon : a.Opens " : " false [.mark ':'] := opens_punctuation rfl
    have hcondition := opens_condition
      (lexes_parenthesize (lexes_render check hcheck) check.isConditional)
      (lexes_parenthesize (lexes_render pattern hpattern) pattern.isConditional) hgap
        (begins_of_isPunctuation rfl)
    have hbranches :=
      ((lexes_render matched hmatched).closedBy hcolon
        (begins_of_isPunctuation rfl)).andThen
      (lexes_render otherwise hotherwise)
    have hall := hcondition.andThen hbranches
    rw [isBroken_conditional]
    simpa [render, tokens, enclosed, String.append_assoc] using hall
termination_by sizeOf t

/-- One branch a line or all on one line: the tokens are the same. -/
theorem lexes_renderChain (t : TypeExpr) (h : t.Writable a) :
    a.Lexes t.renderChain t.isBroken t.tokens := by
  match t with
  | conditional check pattern matched otherwise =>
    obtain ⟨hcheck, hpattern, hmatched, hotherwise⟩ := writable_conditional.1 h
    have hgap : a.Opens "\n  ? " false [.mark '?'] := opens_punctuation rfl
    have hcolon : a.Opens "\n  : " false [.mark ':'] := opens_punctuation rfl
    have hcondition := opens_condition
      (lexes_parenthesize (lexes_render check hcheck) check.isConditional)
      (lexes_parenthesize (lexes_render pattern hpattern) pattern.isConditional) hgap
        (begins_of_isPunctuation rfl)
    have hbranches :=
      ((lexes_render matched hmatched).closedBy hcolon
        (begins_of_isPunctuation rfl)).andThen
      (lexes_renderChain otherwise hotherwise)
    have hall := hcondition.andThen hbranches
    rw [isBroken_conditional]
    simpa [renderChain, tokens, enclosed, String.append_assoc] using hall
  | primitive _ | array _ | readonlyArray _ | union _ | intersection _ | object _
  | record _ _ | literal _ | ref _
  | generic _ _ | infer _ | keyof _ | raw _ => exact lexes_render _ h
termination_by sizeOf t

theorem lex_eq {s : String} (h : a.Lexes s b ts) :
    a.lex s.toList = if b then none else some ts := by
  have hend := h [] fun c hc => nomatch hc
  simpa [lex_nil] using hend

end Alphabet

end TypeScript

end TypedContent

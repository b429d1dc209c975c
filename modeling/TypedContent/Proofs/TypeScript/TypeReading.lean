import TypedContent.Proofs.TypeScript.TypeGrammar

/-!
# What a printed type is read as

The reader is not told how a type was printed, and it need not give the type
back. `TypeExpr.reading` says what it gives: the parentheses keep every
operand apart except one, an array of readonly arrays, whose brackets all
come to stand behind the innermost item.

The invariant is `Reads`: on a bounded number of tokens, a reader takes just
the tokens of a type and gives `reading` of it, whatever closes the type
behind them. Each level of the grammar is read in front of the tokens that
may follow it there (`Reads.operator_operand`,
`Reads.intersection_enclosed`, `Reads.union_enclosed`), so that one more
level of nesting keeps the invariant (`Reads.conditional`), and every reader
`typeAt n` has it (`reads_typeAt`).
-/

namespace TypedContent

open List Option

namespace TypeScript

variable {t : TypeExpr}

namespace TypeExpr

/-- A type in `k` pairs of brackets. -/
def arrays : Nat → TypeExpr → TypeExpr
  | 0, t => t
  | k + 1, t => arrays k (array t)

/-- The spelling of a literal is that of a type of its own, but for `null`,
which is a name. -/
def ofLiteral : Literal → TypeExpr
  | .null => ref "null"
  | .string value => literal (.string value)
  | .int value => literal (.int value)
  | .bool value => literal (.bool value)

mutual

/-- What the printed form of a type is read as with `k` pairs of brackets
behind it, if anything. The brackets of an array go to what its item is
printed as. A name that is an operator is none, and neither are empty angle
brackets. -/
def reading : TypeExpr → Nat → Option TypeExpr
  | primitive kind, k => some (arrays k (ref kind.render))
  | array item, k => reading item (k + 1)
  | readonlyArray item, k => (reading item (k + 1)).bind Grammar.asReadonly?
  | union members, k =>
    (readUnion members).map fun ts => arrays k (Grammar.chain union ts)
  | intersection members, k =>
    (readIntersection members).map fun ts => arrays k (Grammar.chain intersection ts)
  | object properties, k => (readProperties properties).map fun ps => arrays k (object ps)
  | record key value, k =>
    (reading key 0).bind fun key => (reading value 0).map fun value =>
      arrays k (generic "Record" [key, value])
  | literal value, k => some (arrays k (ofLiteral value))
  | ref name, k =>
    if Grammar.operators.contains name then none else some (arrays k (ref name))
  | generic name args, k =>
    if Grammar.operators.contains name || args.isEmpty then none
    else (readTypes args).map fun args => arrays k (generic name args)
  | conditional check pattern matched otherwise, k =>
    (reading check 0).bind fun check => (reading pattern 0).bind fun pattern =>
      (reading matched 0).bind fun matched => (reading otherwise 0).map fun otherwise =>
        arrays k (conditional check pattern matched otherwise)
  | infer name, k => some (arrays k (infer name))
  | keyof item, k => (reading item 0).map fun item => arrays k (keyof item)
  | raw _, _ => none

def readTypes : List TypeExpr → Option (List TypeExpr)
  | [] => some []
  | type :: types => (reading type 0).bind fun t => (readTypes types).map (t :: ·)

def readProperties : List Property → Option (List Property)
  | [] => some []
  | .mk name type isOptional :: properties =>
    (reading type 0).bind fun t => (readProperties properties).map
      (.mk name t isOptional :: ·)

/-- A union among the members of a union has no parentheses, so its members
are members of the outer one. -/
def readUnion : List TypeExpr → Option (List TypeExpr)
  | [] => some []
  | union members :: types =>
    (readUnion members).bind fun ts => (readUnion types).map (ts ++ ·)
  | type :: types => (reading type 0).bind fun t => (readUnion types).map (t :: ·)

def readIntersection : List TypeExpr → Option (List TypeExpr)
  | [] => some []
  | intersection members :: types =>
    (readIntersection members).bind fun ts => (readIntersection types).map (ts ++ ·)
  | type :: types => (reading type 0).bind fun t => (readIntersection types).map (t :: ·)

end

/-- The members of a union that one of its members is read as. -/
def unionMembers : TypeExpr → Option (List TypeExpr)
  | union members => readUnion members
  | t => (reading t 0).map fun t => [t]

def intersectionMembers : TypeExpr → Option (List TypeExpr)
  | intersection members => readIntersection members
  | t => (reading t 0).map fun t => [t]

theorem unionMembers_eq (h : ∀ members, t ≠ union members) :
    t.unionMembers = (reading t 0).map fun t => [t] := by
  cases t with
  | union members => exact absurd rfl (h members)
  | _ => rfl

theorem intersectionMembers_eq (h : ∀ members, t ≠ intersection members) :
    t.intersectionMembers = (reading t 0).map fun t => [t] := by
  cases t with
  | intersection members => exact absurd rfl (h members)
  | _ => rfl

theorem chain_unionMembers (t : TypeExpr) :
    t.unionMembers.map (Grammar.chain union) = t.reading 0 := by
  cases t with
  | union members =>
    rw [unionMembers, reading]
    rfl
  | _ =>
    rw [unionMembers_eq (by simp), Option.map_map]
    exact Option.map_id'

theorem chain_intersectionMembers (t : TypeExpr) :
    t.intersectionMembers.map (Grammar.chain intersection) = t.reading 0 := by
  cases t with
  | intersection members =>
    rw [intersectionMembers, reading]
    rfl
  | _ =>
    rw [intersectionMembers_eq (by simp), Option.map_map]
    exact Option.map_id'

theorem bind_cons_eq {α : Type} (x : Option α) (xs : Option (List α)) :
    (x.bind fun x => xs.map (x :: ·)) = (x.map fun x => [x]).bind fun ys =>
      xs.map (ys ++ ·) := by
  cases x <;> simp

theorem readTypes_eq (types : List TypeExpr) :
    readTypes types = Grammar.gather
      (types.map fun t => (reading t 0).map fun t => [t]) := by
  induction types with
  | nil => rw [readTypes, map_nil, Grammar.gather]
  | cons t types ih => rw [readTypes, ih, bind_cons_eq, map_cons, Grammar.gather]

theorem readProperties_eq (properties : List Property) :
    readProperties properties
      = Grammar.gather (properties.map fun p => (reading p.type 0).map fun t =>
        [.mk p.name t p.isOptional]) := by
  induction properties with
  | nil => rw [readProperties, map_nil, Grammar.gather]
  | cons p properties ih =>
    obtain ⟨name, type, isOptional⟩ := p
    rw [readProperties, ih, map_cons, Grammar.gather]
    simp only [Property.type, Property.name, Property.isOptional]
    cases reading type 0 <;> simp

theorem readUnion_eq (members : List TypeExpr) :
    readUnion members = Grammar.gather (members.map unionMembers) := by
  induction members with
  | nil => rw [readUnion, map_nil, Grammar.gather]
  | cons m members ih =>
    cases m with
    | union => rw [readUnion, ih, map_cons, Grammar.gather, unionMembers]
    | _ => simp only [readUnion, ih, bind_cons_eq, map_cons, Grammar.gather, unionMembers]

theorem readIntersection_eq (members : List TypeExpr) :
    readIntersection members = Grammar.gather (members.map intersectionMembers) := by
  induction members with
  | nil => rw [readIntersection, map_nil, Grammar.gather]
  | cons m members ih =>
    cases m with
    | intersection =>
      rw [readIntersection, ih, map_cons, Grammar.gather, intersectionMembers]
    | _ => simp only [readIntersection, ih, bind_cons_eq, map_cons, Grammar.gather,
      intersectionMembers]

/-- Whether a type ends in brackets of its own. -/
def isArray : TypeExpr → Bool
  | array _ | readonlyArray _ => true
  | _ => false

/-- The brackets behind anything but an array are those of arrays of it. -/
theorem reading_eq_arrays (h : t.isArray = false) (k : Nat) :
    reading t k = (reading t 0).map (arrays k) := by
  cases t with
  | array | readonlyArray => cases h
  | primitive | literal | infer | raw => simp [reading, arrays]
  | union | intersection | object | keyof => simp [reading, arrays, Function.comp_def]
  | ref name =>
    rw [reading, reading]
    cases Grammar.operators.contains name <;> rfl
  | generic name args =>
    rw [reading, reading]
    cases Grammar.operators.contains name || args.isEmpty with
    | true => rfl
    | false => simp [arrays, Function.comp_def]
  | record key value =>
    rw [reading, reading]
    cases reading key 0 <;> cases reading value 0 <;> rfl
  | conditional check pattern matched otherwise =>
    rw [reading, reading]
    cases reading check 0 <;> cases reading pattern 0 <;> cases reading matched 0
      <;> cases reading otherwise 0 <;> rfl

/-- The tokens of a type in front of brackets and behind an operator. -/
def operandTokens (t : TypeExpr) : List Token :=
  enclosed t.isLooserThanPostfix t.tokens

/-- Whether a type as an operand is a primary type. -/
def isPrimary : TypeExpr → Bool
  | array _ | readonlyArray _ => false
  | ref name | generic name _ => !Grammar.operators.contains name
  | _ => true

end TypeExpr

namespace Grammar

open TypeExpr

variable {rest ts : List Token} {name : String}

/-! ## What may follow -/

/-- The tokens behind a whole type. -/
def closers : List Token :=
  [.mark ')', .mark '\x7d', .mark '>', .mark ',', .mark ';', .mark ':']

def afterUnion : List Token :=
  .word "extends" :: .mark '?' :: closers

def afterIntersection : List Token :=
  .mark '|' :: afterUnion

def afterOperand : List Token :=
  .mark '&' :: afterIntersection

def afterPrimary : List Token :=
  .mark '[' :: afterOperand

/-- No type starts with a token that may follow one. -/
theorem operator_of_follows (type : Reader TypeExpr)
    (h : Follows (.mark '<' :: afterPrimary) rest) :
    operator type rest = none ∧ variableName rest = none := by
  cases rest with
  | nil => exact ⟨rfl, rfl⟩
  | cons t rest =>
    have ht := h t rfl
    simp only [afterPrimary, afterOperand, afterIntersection, afterUnion, closers,
      mem_cons, not_mem_nil, or_false] at ht
    rcases ht with
      rfl | rfl | rfl | rfl | rfl | rfl | rfl | rfl | rfl | rfl | rfl | rfl <;>
      exact ⟨rfl, rfl⟩

def pairs : Nat → List Token
  | 0 => []
  | k + 1 => .mark '[' :: .mark ']' :: pairs k

theorem bracketed_pairs (k : Nat) (t : TypeExpr) (h : Follows afterOperand rest) :
    bracketed t (pairs k ++ rest) = (arrays k t, rest) := by
  induction k generalizing t with
  | zero =>
    have hhead : ∀ u, rest.head? = some u → u ≠ .mark '[' := by
      rintro u hu rfl
      exact absurd (h _ hu) (by decide)
    match rest with
    | [] => rfl
    | [u] => rfl
    | u :: v :: rest => exact if_neg fun hpair => hhead u rfl hpair.1
  | succ k ih =>
    rw [pairs, cons_append, cons_append, bracketed, if_pos ⟨rfl, rfl⟩, ih (.array t)]
    rfl

theorem postfixed_of_primary {type : Reader TypeExpr} {t : Option TypeExpr} {k : Nat}
    (h : primary type ts = t.map fun t => (t, pairs k ++ rest))
    (hrest : Follows afterOperand rest) :
    postfixed type ts = t.map fun t => (arrays k t, rest) := by
  rw [postfixed, h]
  cases t with
  | none => rfl
  | some t => simp only [map_some, bracketed_pairs k t hrest]

theorem operator_eq_postfixed {type : Reader TypeExpr}
    (h : ∀ name, ts.head? = some (.word name) → operators.contains name = false) :
    operator type ts = postfixed type ts := by
  match ts with
  | [] | .text _ :: _ | .number _ :: _ | .mark _ :: _ => rfl
  | .word name :: ts =>
    have hname : name ∉ operators := by simpa using h name rfl
    simp only [operators, mem_cons, not_mem_nil, or_false, not_or] at hname
    rw [operator, if_neg hname.1, if_neg hname.2.1, if_neg hname.2.2]

theorem operator_of_contains {type : Reader TypeExpr}
    (h : operators.contains name = true)
    (hrest : Follows (.mark '<' :: afterPrimary) rest) :
    operator type (.word name :: rest) = none := by
  obtain ⟨hoperator, hvariable⟩ := operator_of_follows type hrest
  simp only [contains_iff_mem, operators, mem_cons, not_mem_nil, or_false] at h
  rcases h with rfl | rfl | rfl
  · rw [operator, if_pos rfl, hoperator, map_none]
  · rw [operator, if_neg (by decide), if_pos rfl, hoperator, bind_none]
  · rw [operator, if_neg (by decide), if_neg (by decide), if_pos rfl, hvariable]

/-! ## The invariant -/

/-- A reader of whole types takes the tokens of a type, up to `n` of them,
and gives what the type is read as. -/
structure Reads (a : Alphabet) (n : Nat) (type : Reader TypeExpr) : Prop where
  reads : ∀ t : TypeExpr, t.Writable a → t.tokens.length ≤ n →
    ∀ rest, Follows closers rest →
    type (t.tokens ++ rest) = (reading t 0).map fun u => (u, rest)
  /-- There is nothing between empty angle brackets. -/
  refuses : ∀ rest, type (.mark '>' :: rest) = none

theorem exists_intercalate_cons (sep : Token) (ts : List Token)
    (tss : List (List Token)) :
    ∃ us, [sep].intercalate (ts :: tss) = ts ++ us := by
  cases tss with
  | nil => exact ⟨[], by simp⟩
  | cons us tss => exact ⟨sep :: [sep].intercalate (us :: tss),
    by simp [List.intercalate, List.intersperse]⟩

theorem length_le_intercalate (sep : Token) {tss : List (List Token)} (h : ts ∈ tss) :
    ts.length ≤ ([sep].intercalate tss).length := by
  induction tss with
  | nil => cases h
  | cons us tss ih =>
    cases tss with
    | nil =>
      obtain rfl := mem_singleton.1 h
      simp
    | cons us' tss =>
      have hsplit : [sep].intercalate (us :: us' :: tss)
          = us ++ sep :: [sep].intercalate (us' :: tss) := by
        simp [List.intercalate, List.intersperse]
      rw [hsplit, length_append, length_cons]
      rcases mem_cons.1 h with rfl | h
      · omega
      · have hle := ih h
        omega

theorem length_enclosed (needed : Bool) (ts : List Token) :
    ts.length ≤ (enclosed needed ts).length := by
  cases needed with
  | false => exact Nat.le_refl _
  | true =>
    rw [enclosed, if_pos rfl, length_cons, length_append]
    omega

section Levels

variable {a : Alphabet} {n : Nat} {type : Reader TypeExpr}

theorem Reads.args (H : Reads a n type) {args : List TypeExpr} (hne : args ≠ [])
    (hargs : ∀ t ∈ args, t.Writable a)
    (hlength : ([.mark ','].intercalate (args.map tokens)).length ≤ n)
    (rest : List Token) :
    separated (.mark ',') type ([.mark ','].intercalate (args.map tokens)
      ++ .mark '>' :: rest)
      = (readTypes args).map fun ts => (ts, .mark '>' :: rest) := by
  have hgathers :
      Gathers (.mark ',') type [.mark '>'] ([.mark ','].intercalate (args.map tokens))
      (gather (args.map fun t => (reading t 0).map fun t => [t])) := by
    refine gathers_intercalate hne fun t ht => gathers_one fun rest hrest => ?_
    refine H.reads t (hargs t ht) ?_ rest (hrest.mono (by decide))
    exact Nat.le_trans (length_le_intercalate _ (List.mem_map_of_mem ht)) hlength
  rw [hgathers.separated_eq (follows_cons (by decide)) (by decide), readTypes_eq]

theorem Reads.member (H : Reads a n type) {p : Property} (hp : p.type.Writable a)
    (hlength : p.type.tokens.length ≤ n) {rest : List Token}
    (hrest : Follows closers rest) :
    member type (p.tokens ++ rest)
      = ((reading p.type 0).map fun t => Property.mk p.name t p.isOptional).map fun p =>
        (p, rest) := by
  have hvalue :
      ∀ isOptional, value type p.name isOptional (.mark ':' :: (p.type.tokens ++ rest))
      = ((reading p.type 0).map fun t => Property.mk p.name t isOptional).map fun p =>
        (p, rest) := by
    intro isOptional
    rw [value, skip_cons, bind_some, H.reads p.type hp hlength rest hrest,
      Option.map_map, Option.map_map]
    rfl
  have hoptional : ∀ ts, Grammar.member type (keyToken p.name :: .mark '?' :: ts)
      = value type p.name true ts := by
    intro ts
    unfold keyToken
    split <;> rfl
  have hrequired : ∀ ts, Grammar.member type (keyToken p.name :: .mark ':' :: ts)
      = value type p.name false (.mark ':' :: ts) := by
    intro ts
    unfold keyToken
    split <;> rfl
  rw [Property.tokens, cons_append]
  cases p.isOptional with
  | true => exact (hoptional _).trans (hvalue true)
  | false => exact (hrequired _).trans (hvalue false)

theorem Reads.object (H : Reads a n type) {properties : List Property}
    (hwritable : ∀ p ∈ properties, p.type.Writable a)
    (hlength : ([.mark ';'].intercalate (properties.map Property.tokens)).length ≤ n)
    (rest : List Token) :
    members type ([.mark ';'].intercalate (properties.map Property.tokens)
      ++ .mark '\x7d' :: rest)
      = (readProperties properties).map fun ps => (TypeExpr.object ps, rest) := by
  cases properties with
  | nil => rfl
  | cons p properties =>
    have hgathers : Gathers (.mark ';') (Grammar.member type) [.mark '\x7d']
        ([.mark ';'].intercalate ((p :: properties).map Property.tokens))
        (gather ((p :: properties).map fun p =>
          ((reading p.type 0).map fun t => Property.mk p.name t p.isOptional).map
            fun p => [p])) := by
      refine gathers_intercalate (cons_ne_nil p properties) fun p hp =>
        gathers_one fun rest hrest => ?_
      refine H.member (hwritable p hp) ?_ (hrest.mono (by decide))
      have hmember := length_le_intercalate (.mark ';')
        (List.mem_map_of_mem (f := Property.tokens) hp)
      simp only [Property.tokens, length_cons, length_append] at hmember
      omega
    obtain ⟨us, hus⟩ :=
      exists_intercalate_cons (.mark ';') p.tokens (properties.map Property.tokens)
    have hskip : skip (.mark '\x7d')
        ([.mark ';'].intercalate ((p :: properties).map Property.tokens)
        ++ .mark '\x7d' :: rest) = none := by
      have hkey : keyToken p.name ≠ .mark '\x7d' := by
        unfold keyToken
        split <;> (intro h; cases h)
      rw [map_cons, hus, Property.tokens]
      exact if_neg hkey
    rw [members, hskip]
    rw [hgathers.separated_eq (follows_cons (by decide)) (by decide), readProperties_eq]
    simp only [Option.map_map, Function.comp_def]
    cases gather ((p :: properties).map fun p => (reading p.type 0).map fun t =>
      [Property.mk p.name t p.isOptional]) with
    | none => rfl
    | some ps => simp

theorem Reads.enclosed (H : Reads a n type) (ht : t.Writable a)
    (hlength : t.tokens.length ≤ n) (rest : List Token) :
    primary type (.mark '(' :: (t.tokens ++ .mark ')' :: rest))
      = (reading t 0).map fun u => (u, rest) := by
  rw [primary, if_pos rfl, H.reads t ht hlength _ (follows_cons (by decide))]
  cases reading t 0 <;> simp

/-- A word that is the name of a type, with no angle bracket behind it. -/
theorem named_of_follows (hbool : name ≠ "true" ∧ name ≠ "false")
    (hname : isTypeWord name = true) (hrest : Follows afterPrimary rest) :
    named type name rest = some (.ref name, rest) := by
  rw [named, if_neg hbool.1, if_neg hbool.2, if_pos hname,
    skip_of_follows hrest (by decide)]

theorem Reads.named_args (H : Reads a n type) (name : String)
    (hbool : name ≠ "true" ∧ name ≠ "false") (hname : isTypeWord name = true)
    {args : List TypeExpr} (hargs : ∀ t ∈ args, t.Writable a)
    (hlength : ([.mark ','].intercalate (args.map tokens)).length ≤ n)
    (rest : List Token) :
    named type name (.mark '<'
      :: ([.mark ','].intercalate (args.map tokens) ++ .mark '>' :: rest))
      = if args.isEmpty then none else (readTypes args).map fun ts =>
        (.generic name ts, rest) := by
  rw [named, if_neg hbool.1, if_neg hbool.2, if_pos hname, skip_cons]
  cases args with
  | nil =>
    have hnone : separated (.mark ',') type (.mark '>' :: rest) = none := by
      rw [separated, H.refuses, bind_none]
    exact congrArg (Option.bind · _) hnone
  | cons t args =>
    have hread := H.args (cons_ne_nil t args) hargs hlength rest
    simp only [hread]
    cases readTypes (t :: args) <;> simp

theorem of_isName (h : a.isName name = true) :
    (name ≠ "true" ∧ name ≠ "false")
      ∧ (operators.contains name = false → isTypeWord name = true) := by
  have hreserved : reservedNames.contains name = false := by
    simpa using (Bool.and_eq_true_iff.1 h).2
  refine ⟨⟨?_, ?_⟩, fun hoperator => ?_⟩
  · rintro rfl
    exact absurd hreserved (by decide)
  · rintro rfl
    exact absurd hreserved (by decide)
  · rw [isTypeWord, hoperator, hreserved]
    rfl

/-- A primary type is read off its tokens. -/
theorem Reads.primary_operand (H : Reads a n type) (ht : t.Writable a)
    (hprimary : t.isPrimary = true) (hlength : t.operandTokens.length ≤ n + 1)
    (hrest : Follows afterPrimary rest) :
    primary type (t.operandTokens ++ rest) = (reading t 0).map fun u => (u, rest) := by
  -- Every loose operand stands in parentheses.
  have hparens : t.operandTokens = .mark '(' :: (t.tokens ++ [.mark ')']) →
      primary type (t.operandTokens ++ rest) = (reading t 0).map fun u => (u, rest) := by
    intro heq
    have hinner :=
      H.enclosed (t := t) ht (by rw [heq] at hlength; simp at hlength; omega) rest
    rw [heq]
    simpa using hinner
  cases t with
  | union | intersection | conditional | infer | keyof => exact hparens rfl
  | raw => exact absurd ht not_writable_raw
  | array | readonlyArray => cases hprimary
  | primitive kind =>
    have hword : (kind.render ≠ "true" ∧ kind.render ≠ "false")
        ∧ isTypeWord kind.render = true := by
      cases kind <;> decide
    exact named_of_follows hword.1 hword.2 hrest
  | literal value =>
    rcases value with value | (k | k) | (_ | _) | _
    · rfl
    · rfl
    · rfl
    · rfl
    · rfl
    · exact named_of_follows (by decide) (by decide) hrest
  | ref name =>
    have hname := of_isName (writable_ref.1 ht)
    have hoperator : operators.contains name = false := by
      simpa [isPrimary] using hprimary
    rw [reading, if_neg (by rw [hoperator]; exact Bool.false_ne_true)]
    exact named_of_follows hname.1 (hname.2 hoperator) hrest
  | generic name args =>
    obtain ⟨hname, hargs⟩ := writable_generic.1 ht
    have hoperator : operators.contains name = false := by
      simpa [isPrimary] using hprimary
    have htokens : tokensOfTypes (fun _ => false) args = args.map tokens :=
      tokensOfTypes_eq _ args
    have hargsLength : ([Token.mark ','].intercalate (args.map tokens)).length ≤ n := by
      simp only [operandTokens, isLooserThanPostfix, TypeScript.enclosed, tokens,
        htokens, Bool.false_eq_true, if_false, length_cons, length_append] at hlength
      omega
    have hread := H.named_args name (of_isName hname).1
      ((of_isName hname).2 hoperator) hargs hargsLength rest
    have hsplit :
        (TypeExpr.generic name args).operandTokens ++ rest = .word name :: .mark '<' ::
        ([.mark ','].intercalate (args.map tokens) ++ .mark '>' :: rest) := by
      simp [operandTokens, isLooserThanPostfix, TypeScript.enclosed, tokens, htokens]
    rw [hsplit, primary, hread, reading, hoperator, Bool.false_or]
    cases args.isEmpty with
    | true => rfl
    | false => simp [arrays, Function.comp_def]
  | record key value =>
    obtain ⟨hkey, hvalue⟩ := writable_record.1 ht
    have hargs : ∀ t ∈ [key, value], t.Writable a :=
      forall_mem_cons.2 ⟨hkey, forall_mem_singleton.2 hvalue⟩
    have hargsLength :
        ([Token.mark ','].intercalate ([key, value].map tokens)).length ≤ n := by
      simp only [operandTokens, isLooserThanPostfix, TypeScript.enclosed, tokens,
        Bool.false_eq_true, if_false, length_cons, length_append] at hlength
      simp only [map_cons, map_nil]
      omega
    have hread := H.named_args "Record" (by decide) (by decide) hargs hargsLength rest
    have hsplit : (TypeExpr.record key value).operandTokens ++ rest
        = .word "Record" :: .mark '<' ::
        ([.mark ','].intercalate ([key, value].map tokens) ++ .mark '>' :: rest) := by
      simp [operandTokens, isLooserThanPostfix, TypeScript.enclosed, tokens]
    rw [hsplit, primary, hread, reading]
    simp only [readTypes, isEmpty_cons, Bool.false_eq_true, if_false]
    cases reading key 0 <;> cases reading value 0 <;> simp [arrays]
  | object properties =>
    have htokens := tokensOfProperties_eq properties
    have hproperties :
        ([Token.mark ';'].intercalate (properties.map Property.tokens)).length ≤ n := by
      simp only [operandTokens, isLooserThanPostfix, TypeScript.enclosed, tokens,
        htokens, Bool.false_eq_true, if_false, length_cons, length_append] at hlength
      omega
    have hread := H.object (writable_object.1 ht) hproperties rest
    have hsplit : (TypeExpr.object properties).operandTokens ++ rest = .mark '\x7b' ::
        ([.mark ';'].intercalate (properties.map Property.tokens)
          ++ .mark '\x7d' :: rest) := by
      simp [operandTokens, isLooserThanPostfix, TypeScript.enclosed, tokens, htokens]
    rw [hsplit, primary, if_neg (by decide), if_pos rfl, hread, reading]
    cases readProperties properties <;> simp [arrays]

/-- The first word of a primary type is no operator. -/
theorem contains_of_head_operand (ht : t.Writable a) (hprimary : t.isPrimary = true)
    (h : (t.operandTokens ++ rest).head? = some (.word name)) :
    operators.contains name = false := by
  have hword : ∀ word : String, operators.contains word = false →
      some (Token.word word) = some (.word name) →
      operators.contains name = false := by
    intro word hoperator heq
    rwa [← Token.word.inj (Option.some.inj heq)]
  cases t with
  | union | intersection | conditional | infer | keyof => exact nomatch h
  | raw => exact absurd ht not_writable_raw
  | array | readonlyArray => cases hprimary
  | primitive kind => exact hword kind.render (by cases kind <;> decide) h
  | ref name' => exact hword name' (by simpa [isPrimary] using hprimary) h
  | generic name' => exact hword name' (by simpa [isPrimary] using hprimary) h
  | record => exact hword "Record" (by decide) h
  | object => exact nomatch h
  | literal value =>
    rcases value with value | (k | k) | (_ | _) | _
    · exact nomatch h
    · exact nomatch h
    · exact nomatch h
    · exact hword "false" (by decide) h
    · exact hword "true" (by decide) h
    · exact hword "null" (by decide) h

/-- An operand is read with all brackets behind it. The induction is on the
operand: the brackets of an array are handed on to its item, and only what
is no array is a primary type. -/
theorem Reads.operator_operand (H : Reads a n type) (t : TypeExpr) (k : Nat)
    (ht : t.Writable a) (hlength : t.operandTokens.length ≤ n + 1)
    (hrest : Follows afterOperand rest) :
    operator type (t.operandTokens ++ (pairs k ++ rest)) = (reading t k).map fun u =>
      (u, rest) := by
  have hfollows : Follows afterPrimary (pairs k ++ rest) := by
    cases k with
    | zero => exact hrest.mono (subset_cons_self _ _)
    | succ k => exact follows_cons mem_cons_self
  have hatom : t.isArray = false → t.isPrimary = true →
      operator type (t.operandTokens ++ (pairs k ++ rest)) = (reading t k).map fun u =>
        (u, rest) := by
    intro harray hprimary
    have hoperand := H.primary_operand ht hprimary hlength hfollows
    rw [operator_eq_postfixed fun name => contains_of_head_operand ht hprimary,
      postfixed_of_primary hoperand hrest, reading_eq_arrays harray k, Option.map_map]
    rfl
  match t with
  | .array item =>
    have hitem : item.operandTokens.length ≤ n + 1 := by
      simp only [operandTokens, isLooserThanPostfix, tokens, TypeScript.enclosed,
        Bool.false_eq_true, if_false, length_append] at hlength ⊢
      omega
    have hsplit : (TypeExpr.array item).operandTokens ++ (pairs k ++ rest)
        = item.operandTokens ++ (pairs (k + 1) ++ rest) := by
      simp [operandTokens, isLooserThanPostfix, tokens, TypeScript.enclosed, pairs]
    rw [hsplit, H.operator_operand item (k + 1)
      (writable_array.1 ht) hitem hrest, reading]
  | .readonlyArray item =>
    have hitem : item.operandTokens.length ≤ n + 1 := by
      simp only [operandTokens, isLooserThanPostfix, tokens, TypeScript.enclosed,
        Bool.false_eq_true, if_false, length_append, length_cons] at hlength ⊢
      omega
    have hsplit : (TypeExpr.readonlyArray item).operandTokens ++ (pairs k ++ rest)
        = .word "readonly" :: (item.operandTokens ++ (pairs (k + 1) ++ rest)) := by
      simp [operandTokens, isLooserThanPostfix, tokens, TypeScript.enclosed, pairs]
    have hinner :=
      H.operator_operand item (k + 1) (writable_readonlyArray.1 ht) hitem hrest
    rw [hsplit, operator, if_neg (by decide), if_pos rfl, hinner, reading]
    cases reading item (k + 1) <;> simp
  | .ref name =>
    cases hoperator : operators.contains name with
    | true =>
      rw [reading, if_pos hoperator]
      exact operator_of_contains hoperator (hfollows.mono (subset_cons_self _ _))
    | false => exact hatom rfl (by rw [isPrimary, hoperator]; rfl)
  | .generic name args =>
    cases hoperator : operators.contains name with
    | true =>
      rw [reading, hoperator]
      exact operator_of_contains hoperator (follows_cons mem_cons_self)
    | false => exact hatom rfl (by rw [isPrimary, hoperator]; rfl)
  | .primitive _ | .literal _ | .infer _ | .union _ | .intersection _ | .object _
  | .keyof _ | .record _ _
  | .conditional _ _ _ _ => exact hatom rfl rfl
  | .raw text => exact absurd ht not_writable_raw

/-- Whether a type is made of weaker parts than operands. -/
def isChain : TypeExpr → Bool
  | .union _ | .intersection _ | .conditional _ _ _ _ => true
  | _ => false

theorem Reads.operator_tokens (H : Reads a n type) (ht : t.Writable a)
    (hchain : isChain t = false) (hlength : t.tokens.length ≤ n + 1)
    (hrest : Follows afterOperand rest) :
    operator type (t.tokens ++ rest) = (reading t 0).map fun u => (u, rest) := by
  have htight : t.operandTokens = t.tokens →
      operator type (t.tokens ++ rest) = (reading t 0).map fun u => (u, rest) := by
    intro heq
    have hoperand := H.operator_operand t 0 ht (heq ▸ hlength) hrest
    rwa [heq] at hoperand
  cases t with
  | union | intersection | conditional => cases hchain
  | raw => exact absurd ht not_writable_raw
  | infer name =>
    have hreserved : reservedNames.contains name = false := by
      simpa using (Bool.and_eq_true_iff.1 (writable_infer.1 ht)).2
    have hname : variableName (.word name :: rest) = some (.infer name, rest) := by
      rw [variableName, hreserved]
      rfl
    exact hname
  | keyof item =>
    have hitem : item.operandTokens.length ≤ n + 1 := Nat.le_of_succ_le hlength
    have hoperand := H.operator_operand item 0 (writable_keyof.1 ht) hitem hrest
    rw [pairs, nil_append] at hoperand
    show (operator type (item.operandTokens ++ rest)).map _ = _
    rw [hoperand, reading]
    cases reading item 0 <;> rfl
  | primitive | array | readonlyArray | object | record | literal | ref | generic =>
    exact htight rfl

/-- A member of an intersection, in the parentheses it needs there. -/
theorem Reads.gathers_intersection (H : Reads a n type) (m : TypeExpr) (hm : m.Writable a)
    (hlength : (TypeScript.enclosed m.isLooserThanIntersection m.tokens).length ≤ n + 1) :
    Gathers (.mark '&') (operator type) afterIntersection
      (TypeScript.enclosed m.isLooserThanIntersection m.tokens)
      m.intersectionMembers := by
  match m with
  | .intersection ms =>
    obtain ⟨hne, hms⟩ := writable_intersection.1 hm
    rw [intersectionMembers, readIntersection_eq]
    simp only [isLooserThanIntersection, TypeScript.enclosed, Bool.false_eq_true,
      if_false, tokens, tokensOfTypes_eq] at hlength ⊢
    refine gathers_intercalate hne fun m hmem => ?_
    refine H.gathers_intersection m (hms m hmem) (Nat.le_trans ?_ hlength)
    exact length_le_intercalate _ (List.mem_map_of_mem (f := fun m =>
      TypeScript.enclosed (isLooserThanIntersection m) (tokens m)) hmem)
  | .union _ | .conditional _ _ _ _ =>
    rw [intersectionMembers_eq (by simp)]
    refine gathers_one fun rest hrest => ?_
    exact H.operator_operand _ 0 hm hlength hrest
  | .primitive _ | .array _ | .readonlyArray _ | .object _ | .record _ _ | .literal _
  | .ref _ | .generic _ _
  | .infer _ | .keyof _ | .raw _ =>
    rw [intersectionMembers_eq (by simp)]
    refine gathers_one fun rest hrest => ?_
    exact H.operator_tokens hm rfl hlength hrest
termination_by sizeOf m

theorem Reads.intersection_enclosed (H : Reads a n type) (ht : t.Writable a)
    (hlength : (TypeScript.enclosed t.isLooserThanIntersection t.tokens).length ≤ n + 1)
    (hrest : Follows afterIntersection rest) :
    intersection type (TypeScript.enclosed t.isLooserThanIntersection t.tokens ++ rest)
      = (reading t 0).map fun u => (u, rest) := by
  have hgathers := H.gathers_intersection t ht hlength
  rw [Grammar.intersection, hgathers.separated_eq hrest
    (by decide), ← chain_intersectionMembers, Option.map_map, Option.map_map]
  rfl

theorem Reads.gathers_union (H : Reads a n type) (m : TypeExpr) (hm : m.Writable a)
    (hlength : (TypeScript.enclosed m.isConditional m.tokens).length ≤ n + 1) :
    Gathers (.mark '|') (Grammar.intersection type) afterUnion
      (TypeScript.enclosed m.isConditional m.tokens)
      m.unionMembers := by
  match m with
  | .union ms =>
    obtain ⟨hne, hms⟩ := writable_union.1 hm
    rw [unionMembers, readUnion_eq]
    simp only [isConditional, TypeScript.enclosed, Bool.false_eq_true, if_false, tokens,
      tokensOfTypes_eq] at hlength ⊢
    refine gathers_intercalate hne fun m hmem => ?_
    refine H.gathers_union m (hms m hmem) (Nat.le_trans ?_ hlength)
    exact length_le_intercalate _ (List.mem_map_of_mem (f := fun m =>
      TypeScript.enclosed (isConditional m) (tokens m)) hmem)
  | .conditional _ _ _ _ | .intersection _ | .primitive _ | .array _ | .readonlyArray _
  | .object _ | .record _ _
  | .literal _ | .ref _ | .generic _ _ | .infer _ | .keyof _ | .raw _ =>
    rw [unionMembers_eq (by simp)]
    refine gathers_one fun rest hrest => ?_
    exact H.intersection_enclosed hm hlength hrest
termination_by sizeOf m

theorem Reads.union_enclosed (H : Reads a n type) (ht : t.Writable a)
    (hlength : (TypeScript.enclosed t.isConditional t.tokens).length ≤ n + 1)
    (rest : List Token) (hrest : Follows afterUnion rest) :
    union type (TypeScript.enclosed t.isConditional t.tokens ++ rest)
      = (reading t 0).map fun u => (u, rest) := by
  have hgathers := H.gathers_union t ht hlength
  rw [Grammar.union, hgathers.separated_eq hrest (by decide), ← chain_unionMembers,
    Option.map_map, Option.map_map]
  rfl

/-- One more level of nesting. -/
theorem Reads.conditional (H : Reads a n type) :
    Reads a (n + 1) (Grammar.conditional type) where
  reads t ht hlength rest hrest := by
    have hwhole : t.isConditional = false →
        Grammar.conditional type (t.tokens ++ rest) = (reading t 0).map fun u =>
          (u, rest) := by
      intro hplain
      have hunion := H.union_enclosed ht (by rw [hplain]; exact hlength) rest
        (hrest.mono (by decide))
      have hskip : skip (.word "extends") rest = none := skip_of_follows hrest (by decide)
      rw [hplain] at hunion
      rw [Grammar.conditional, show t.tokens
        = TypeScript.enclosed false t.tokens from rfl, hunion]
      cases reading t 0 with
      | none => rfl
      | some u => simp only [map_some, bind_some, hskip]
    cases t with
    | conditional check pattern matched otherwise =>
      obtain ⟨hcheck, hpattern, hmatched, hotherwise⟩ := writable_conditional.1 ht
      simp only [tokens, length_append, length_cons] at hlength
      have hfirst := H.union_enclosed hcheck (by omega) (.word "extends" ::
        (TypeScript.enclosed pattern.isConditional pattern.tokens
          ++ .mark '?' :: (matched.tokens ++ .mark ':' ::
          (otherwise.tokens ++ rest)))) (follows_cons mem_cons_self)
      have hsecond := H.union_enclosed hpattern (by omega)
        (.mark '?' :: (matched.tokens ++ .mark ':' ::
          (otherwise.tokens ++ rest))) (follows_cons (by decide))
      have hthird :=
        H.reads matched hmatched (by omega) (.mark ':' :: (otherwise.tokens ++ rest))
        (follows_cons (by decide))
      have hfourth := H.reads otherwise hotherwise (by omega) rest hrest
      have hsplit : (TypeExpr.conditional check pattern matched otherwise).tokens ++ rest
          = TypeScript.enclosed check.isConditional check.tokens ++ .word "extends" ::
            (TypeScript.enclosed pattern.isConditional pattern.tokens
              ++ .mark '?' :: (matched.tokens ++ .mark ':' ::
              (otherwise.tokens ++ rest))) := by
        simp [tokens]
      rw [hsplit, Grammar.conditional, hfirst, reading]
      cases reading check 0 with
      | none => rfl
      | some check =>
        simp only [map_some, bind_some, skip_cons, hsecond]
        cases reading pattern 0 with
        | none => rfl
        | some pattern =>
          simp only [map_some, bind_some, skip_cons, hthird]
          cases reading matched 0 with
          | none => rfl
          | some matched =>
            simp only [map_some, bind_some, skip_cons, hfourth]
            cases reading otherwise 0 <;> rfl
    | _ => exact hwhole rfl
  refuses rest := by
    have hnone : operator type (.mark '>' :: rest) = none :=
      (operator_of_follows type (follows_cons (by decide))).1
    have hintersection : intersection type (.mark '>' :: rest) = none := by
      rw [Grammar.intersection, separated, hnone]
      rfl
    rw [Grammar.conditional, Grammar.union, separated, hintersection]
    rfl

end Levels

theorem tokens_ne_nil {a : Alphabet} (t : TypeExpr) (ht : t.Writable a) :
    t.tokens ≠ [] := by
  have hchain : ∀ {sep : Token} {wrap : TypeExpr → Bool} {m : TypeExpr}
      {ms : List TypeExpr}, m.tokens ≠ [] →
      [sep].intercalate (tokensOfTypes wrap (m :: ms)) ≠ [] := by
    intro sep wrap m ms hm hnil
    obtain ⟨us, hus⟩ := exists_intercalate_cons sep
      (TypeScript.enclosed (wrap m) m.tokens) (tokensOfTypes wrap ms)
    rw [tokensOfTypes, hus, append_eq_nil_iff] at hnil
    have hlength := length_enclosed (wrap m) m.tokens
    rw [hnil.1, length_nil, Nat.le_zero, length_eq_zero_iff] at hlength
    exact hm hlength
  cases t with
  | union members =>
    cases members with
    | nil => exact absurd rfl (writable_union.1 ht).1
    | cons m ms =>
      exact hchain (tokens_ne_nil m ((writable_union.1 ht).2 m mem_cons_self))
  | intersection members =>
    cases members with
    | nil => exact absurd rfl (writable_intersection.1 ht).1
    | cons m ms =>
      exact hchain (tokens_ne_nil m ((writable_intersection.1 ht).2 m mem_cons_self))
  | literal value =>
    rcases value with value | (k | k) | (_ | _) | _ <;> exact cons_ne_nil _ _
  | raw _ => exact absurd ht not_writable_raw
  | primitive _ | readonlyArray _ | object _ | record _ _ | ref _ | generic _ _
  | infer _ | keyof _ =>
    exact cons_ne_nil _ _
  | array _ | conditional _ _ _ _ =>
    exact append_ne_nil_of_right_ne_nil _ (cons_ne_nil _ _)

theorem reads_typeAt (a : Alphabet) (n : Nat) : Reads a n (typeAt n) := by
  induction n with
  | zero =>
    refine ⟨fun t ht hlength => ?_, fun _ => rfl⟩
    exact absurd (length_eq_zero_iff.1 (Nat.le_zero.1 hlength)) (tokens_ne_nil t ht)
  | succ n ih => exact ih.conditional

end Grammar

end TypeScript

end TypedContent

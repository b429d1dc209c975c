import TypedContent.Output.ClientModule
import TypedContent.Proofs.Output.Overloads

/-!
# Names in a client

The names in a client module fall into groups. A class of an entity uses
names that start with its type name (`Entity.names_standardClass`), a method
of a custom route uses qualified names (`Route.names_clientMethod`), and the
client itself uses the classes (`names_rootClass`). `Mentioned` puts the
groups together, and `mentioned_of_item` says that there are no others.
-/

namespace TypedContent

open List TypeScript

/-- What a client can refer to without an import: its transport, the one
type parameter of its methods, and two types of the language. -/
def ambientNames : List String :=
  ["ClientConfig", "BaseAPI", specParameter, "Promise", "Partial"]

/-- The text of a statement that gives a property its value. -/
def construction (name className : String) : Statement :=
  .raw ("this." ++ name ++ " = new " ++ className ++ "(config);")

/-! ## Names in the classes of entities -/

namespace Entity

/-- The types that a class of an entity may refer to. -/
def clientNames (e : Entity) : List String :=
  e.plainNames ++ if e.isPopulatable then
    [specParameter, TypeName.populateParam e.typeName, TypeName.populate e.typeName,
      TypeName.withPopulate e.typeName]
  else []

variable (e : Entity)

theorem namesOfTypes_append (xs ys : List TypeExpr) :
    TypeExpr.namesOfTypes (xs ++ ys)
      = TypeExpr.namesOfTypes xs ++ TypeExpr.namesOfTypes ys := by
  induction xs with
  | nil => rfl
  | cons x xs ih => simp [TypeExpr.namesOfTypes, ih]

section Read

variable {leading : List Parameter} (hleading : Parameter.names leading = [])
  (wrap : TypeExpr → TypeExpr)

include hleading

theorem names_parameters (name : String) (type : TypeExpr) (isOptional : Bool) :
    Parameter.names (leading ++ [⟨name, some type, isOptional⟩]) = type.names := by
  have hlast : Parameter.names [⟨name, some type, isOptional⟩] = type.names := by
    simp [Parameter.names, TypeExpr.namesOfTypes]
  rw [Parameter.names, filterMap_append, namesOfTypes_append]
  exact (congrArg₂ (· ++ ·) hleading hlast).trans (nil_append _)

theorem names_populatedSignature (constraint : TypeExpr) (isConst : Bool) :
    (e.populatedSignature leading wrap constraint isConst).names
      = constraint.names ++ ["QueryParams", e.typeName, TypeName.filters e.typeName,
        specParameter]
        ++ "Promise" :: (wrap (.generic (TypeName.withPopulate e.typeName)
          [.ref specParameter])).names := by
  rw [Signature.names, populatedSignature, Parameter.required, names_parameters hleading]
  simp [promise, queryType, Property.required, TypeExpr.names, TypeExpr.namesOfTypes,
    TypeExpr.namesOfProperties]

theorem names_fallbackSignature :
    (e.fallbackSignature leading wrap).names
      = ["QueryParams", e.typeName, TypeName.filters e.typeName,
        TypeName.populate e.typeName]
        ++ "Promise" :: (wrap (.ref e.typeName)).names := by
  rw [Signature.names, fallbackSignature, signature, Parameter.optional,
    names_parameters hleading]
  simp [promise, queryType, Property.optional, TypeExpr.names, TypeExpr.namesOfTypes,
    TypeExpr.namesOfProperties]

theorem names_looseSignature (type result : TypeExpr) :
    (signature (leading ++ [.optional "params" type]) (promise result)).names
      = type.names ++ "Promise" :: result.names := by
  rw [Signature.names, signature, Parameter.optional, names_parameters hleading]
  simp [promise, TypeExpr.names, TypeExpr.namesOfTypes]

variable {wrap} (hwrap : ∀ t, (wrap t).names ⊆ "ListResponse" :: t.names)

include hwrap

theorem names_readOverloads :
    ∀ s ∈ e.readOverloads leading wrap, s.names ⊆ e.clientNames := by
  unfold readOverloads
  split
  · rename_i hpopulatable
    have hquery : "QueryParams" ∈ e.clientNames ∧ e.typeName ∈ e.clientNames
        ∧ TypeName.filters e.typeName ∈ e.clientNames ∧ "Promise" ∈ e.clientNames := by
      simp [clientNames, plainNames]
    have hspec : specParameter ∈ e.clientNames
        ∧ TypeName.populateParam e.typeName ∈ e.clientNames
        ∧ TypeName.populate e.typeName ∈ e.clientNames := by
      simp [clientNames, hpopulatable]
    have hresult : (wrap (.ref e.typeName)).names ⊆ e.clientNames :=
      List.Subset.trans (hwrap _) (by simp [TypeExpr.names, clientNames, plainNames])
    have hpayload :
        (wrap (.generic (TypeName.withPopulate e.typeName) [.ref specParameter])).names
        ⊆ e.clientNames :=
      List.Subset.trans (hwrap _)
        (by simp [TypeExpr.names, TypeExpr.namesOfTypes, clientNames, plainNames,
          hpopulatable])
    have hpopulated : ∀ constraint isConst, constraint.names ⊆ e.clientNames →
        (e.populatedSignature leading wrap constraint isConst).names ⊆ e.clientNames := by
      intro constraint isConst hconstraint
      rw [e.names_populatedSignature hleading]
      simp [hconstraint, hquery, hspec, hpayload]
    intro s hs
    simp only [mem_cons, not_mem_nil, or_false] at hs
    rcases hs with rfl | rfl | rfl | rfl
    · exact hpopulated _ _ (nil_subset _)
    · exact hpopulated _ _ (cons_subset.2 ⟨hspec.2.1, nil_subset _⟩)
    · exact hpopulated _ _ (cons_subset.2 ⟨hspec.2.1, nil_subset _⟩)
    · rw [e.names_fallbackSignature hleading]
      simp [hquery, hspec, hresult]
  · exact fun s hs => nomatch hs

theorem names_readMethod (name : String) {body : List Statement}
    (hbody : Statement.namesOfStatements body ⊆ e.clientNames) :
    (ClassMember.method (e.readMethod name leading wrap body)).names ⊆ e.clientNames := by
  have hresult : (wrap (.ref e.typeName)).names ⊆ e.clientNames :=
    List.Subset.trans (hwrap _) (by simp [TypeExpr.names, clientNames, plainNames])
  have himplementation : (e.readImplementation leading wrap).names ⊆ e.clientNames := by
    have hquery : "Promise" ∈ e.clientNames ∧ e.queryType.names ⊆ e.clientNames := by
      simp [queryType, TypeExpr.names, TypeExpr.namesOfTypes, clientNames, plainNames]
    unfold readImplementation
    split <;> rw [names_looseSignature hleading]
    · exact cons_subset.2 ⟨hquery.1, nil_subset _⟩
    · exact append_subset.2 ⟨hquery.2, cons_subset.2 ⟨hquery.1, hresult⟩⟩
  intro n hn
  rcases mem_append.1 hn with hn | hn
  · rcases mem_append.1 hn with hn | hn
    · obtain ⟨s, hs, hn⟩ := mem_flatMap.1 hn
      exact e.names_readOverloads hleading hwrap s hs hn
    · exact himplementation hn
  · exact hbody hn

end Read

/-- Reading and writing methods alike stay within the names of their
entity. -/
theorem names_standardMethods :
    ∀ m ∈ e.standardMethods, (ClassMember.method m).names ⊆ e.clientNames := by
  have hsubset : ["ListResponse", e.typeName] ⊆ e.clientNames
      ∧ ["SingleResponse", e.typeName] ⊆ e.clientNames
      ∧ ["Promise"] ⊆ e.clientNames
      ∧ [TypeName.input e.typeName, "Promise", e.typeName, "SingleResponse",
        e.typeName] ⊆ e.clientNames
      ∧ ["Partial", TypeName.input e.typeName, "Promise", e.typeName,
        "SingleResponse", e.typeName]
        ⊆ e.clientNames := by
    simp [clientNames, plainNames]
  obtain ⟨hlist, hsingle, hpromise, hcreate, hupdate⟩ := hsubset
  have hnone : Parameter.names [] = [] := rfl
  have hid : Parameter.names [idParameter] = [] := rfl
  have hsame : ∀ t : TypeExpr, (id t).names ⊆ "ListResponse" :: t.names :=
    fun t => subset_cons_self _ _
  have harray : ∀ t : TypeExpr, t.array.names ⊆ "ListResponse" :: t.names :=
    fun t => subset_cons_self _ _
  have hnullable : ∀ t : TypeExpr, t.nullable.names ⊆ "ListResponse" :: t.names := by
    intro t
    simp [TypeExpr.nullable, TypeExpr.null, TypeExpr.names, TypeExpr.namesOfTypes]
  have hlisted : ∀ t : TypeExpr, (listResponse t).names ⊆ "ListResponse" :: t.names := by
    intro t
    simp [listResponse, TypeExpr.names, TypeExpr.namesOfTypes]
  have hall : ∀ m ∈ e.collectionMethods ++ e.singleMethods,
      (ClassMember.method m).names ⊆ e.clientNames := by
    simp only [collectionMethods, singleMethods, cons_append, nil_append, forall_mem_cons]
    refine ⟨e.names_readMethod hnone harray "find" ?_,
      e.names_readMethod hnone hlisted "findWithMeta" ?_,
      e.names_readMethod hid hnullable "findOne" ?_, hcreate, hupdate, hpromise,
      e.names_readMethod hnone hsame "find" ?_, hupdate, forall_mem_nil _⟩
    · exact hlist
    · exact hlist
    · exact hsingle
    · exact hsingle
  intro m hm
  unfold standardMethods at hm
  split at hm
  · exact hall m (mem_append_right _ hm)
  all_goals exact hall m (mem_append_left _ hm)

theorem names_standardClass (routes : RouteSet) :
    (e.standardClass routes).names ⊆ e.clientNames := by
  intro n hn
  rcases mem_append.1 hn with hn | hn
  · obtain rfl := mem_singleton.1 hn
    simp [clientNames, plainNames]
  · obtain ⟨member, hmember, hn⟩ := mem_flatMap.1 hn
    rcases mem_cons.1 hmember with rfl | hmember
    · obtain rfl : n = "ClientConfig" := mem_singleton.1 hn
      simp [clientNames, plainNames]
    · obtain ⟨m, hm, rfl⟩ := mem_map.1 hmember
      exact e.names_standardMethods m hm hn

end Entity

/-! ## Names in the methods of custom routes -/

namespace Route

variable {n : String}

variable (r : Route) (routes : RouteSet)

theorem eq_ref_of_declaredType? {slot : Slot} {type : TypeExpr}
    (h : r.declaredType? routes slot = some type) :
    type = .ref (routes.namespaceName r.owner ++ "." ++ slot.aliasName r.action) := by
  obtain ⟨-, -, rfl⟩ := Option.map_eq_some_iff.1 h
  rfl

/-- A slot without a declared type has a loose one, which has no names. -/
theorem names_slot (slot : Slot) {loose : TypeExpr} (hloose : loose.names = [])
    (hn : n ∈ ((r.declaredType? routes slot).getD loose).names) :
    r.declaredType? routes slot = some (.ref n) := by
  cases hdeclared : r.declaredType? routes slot with
  | none =>
    rw [hdeclared, Option.getD_none, hloose] at hn
    cases hn
  | some type =>
    rw [hdeclared, Option.getD_some, r.eq_ref_of_declaredType? routes hdeclared] at hn
    rw [r.eq_ref_of_declaredType? routes hdeclared, mem_singleton.1 hn]

theorem names_pathTemplate (path : String) : (pathTemplate path).names = [] := by
  have hpieces : ∀ pieces : List PathPiece,
      Expr.namesOfPieces (pieces.map PathPiece.template) = [] := by
    intro pieces
    induction pieces with
    | nil => rfl
    | cons piece pieces ih =>
      cases piece with
      | literal text => exact ih
      | param name => exact ih
  unfold pathTemplate
  split
  · rfl
  · exact hpieces _

theorem names_pathParamsType : r.pathParamsType.names = [] := by
  have hall : ∀ params : List String,
      TypeExpr.namesOfProperties (params.map fun name =>
        Property.required name idType) = [] := by
    intro params
    induction params with
    | nil => rfl
    | cons name params ih => exact ih
  exact hall r.params

theorem names_methodParameters (hn : n ∈ Parameter.names (r.methodParameters routes)) :
    ∃ slot, r.declaredType? routes slot = some (.ref n) := by
  unfold methodParameters at hn
  simp only [Parameter.names, filterMap_append, Entity.namesOfTypes_append,
    mem_append] at hn
  rcases hn with (hn | hn) | hn
  · split at hn
    · cases hn
    · exact ⟨.params, r.names_slot routes .params r.names_pathParamsType
        (by simpa [Parameter.required, TypeExpr.namesOfTypes] using hn)⟩
  · split at hn
    · exact ⟨.body, r.names_slot routes .body
        rfl (by simpa [Parameter.required, TypeExpr.namesOfTypes] using hn)⟩
    · cases hn
  · exact ⟨.query, r.names_slot routes .query
      rfl (by simpa [Parameter.optional, TypeExpr.namesOfTypes] using hn)⟩

theorem names_clientMethod (hn : n ∈ (ClassMember.method (r.clientMethod routes)).names) :
    n = "Promise" ∨ ∃ slot, r.declaredType? routes slot = some (.ref n) := by
  have hresponse : n ∈ ((r.declaredType? routes .response).getD .unknown).names →
      n = "Promise" ∨ ∃ slot, r.declaredType? routes slot = some (.ref n) :=
    fun h => .inr ⟨.response, r.names_slot routes .response rfl h⟩
  have hoptions : Expr.namesOfFields r.requestOptions = [] := by
    unfold requestOptions
    split <;> rfl
  simp only [ClassMember.names, clientMethod, asyncMethod, flatMap_nil, nil_append,
    mem_append] at hn
  rcases hn with hn | hn
  · simp only [Signature.names, signature, flatMap_nil, TypeExpr.namesOfTypes, nil_append,
      mem_append, Option.toList_some, promise, TypeExpr.names, append_nil, mem_cons] at hn
    rcases hn with hn | hn | hn
    · exact .inr (r.names_methodParameters routes hn)
    · exact .inl hn
    · exact hresponse hn
  · have hnonempty : r.requestOptions.isEmpty = false := by
      unfold requestOptions
      split <;> rfl
    simp only [Statement.namesOfStatements, Statement.names, request, hnonempty,
      Expr.names, Expr.this, Expr.text, Expr.namesOfExprs, names_pathTemplate, hoptions,
      TypeExpr.namesOfTypes, append_nil, nil_append, Bool.false_eq_true, if_false] at hn
    exact hresponse hn

end Route

/-! ## Names in a client -/

section Client

variable {c : TypeScript.Class} {name : String}

variable (schema : Schema) (routes : RouteSet)

/-- The names of the classes of a client. -/
def classNames : List String :=
  (clientClasses schema routes).map Class.name ++ [rootName]

/-- Where a name in a client can come from. -/
inductive Mentioned (name : String) : Prop where
  | ambient (h : name ∈ ambientNames)
  | ofClass (h : name ∈ classNames schema routes)
  | entity (e : Entity) (he : e ∈ schema.entities) (h : name ∈ e.clientNames)
  | declared (r : Route) (hr : r ∈ routes.routes) (slot : Slot)
      (h : r.declaredType? routes slot = some (.ref name))

variable {schema routes}

theorem mem_clientClasses {e : Entity} (he : e ∈ schema.entities)
    (hc : c ∈ e.classes routes) :
    c ∈ clientClasses schema routes :=
  mem_append_left _ (mem_flatMap.2 ⟨e, he, hc⟩)

theorem mentioned_of_clientMethods {chosen : List Route}
    (hchosen : ∀ r ∈ chosen, r ∈ routes.routes)
    (h : name ∈ ((routes.clientMethods chosen).map ClassMember.method).flatMap
      ClassMember.names) :
    Mentioned schema routes name := by
  obtain ⟨member, hmember, hname⟩ := mem_flatMap.1 h
  obtain ⟨m, hm, rfl⟩ := mem_map.1 hmember
  obtain ⟨r, hr, rfl⟩ := mem_map.1 hm
  rcases r.names_clientMethod routes hname with rfl | ⟨slot, hslot⟩
  · exact .ambient (by decide)
  · exact .declared r (hchosen r (mem_of_mem_distinctBy hr)) slot hslot

theorem Entity.eq_of_extensionClass? {e : Entity}
    (h : e.extensionClass? routes = some c) :
    c = { name := TypeName.extendedApi e.typeName
          base := some (.ref (TypeName.api e.typeName))
          members := (routes.extensionMethods e.owner).map ClassMember.method
          doc := none } := by
  unfold extensionClass? at h
  split at h
  · cases h
  · exact (Option.some.inj h).symm

theorem mentioned_of_class (hc : c ∈ clientClasses schema routes)
    (h : name ∈ c.names) : Mentioned schema routes name := by
  rcases mem_append.1 hc with hc | hc
  · obtain ⟨e, he, hc⟩ := mem_flatMap.1 hc
    rcases mem_cons.1 hc with rfl | hc
    · exact .entity e he (e.names_standardClass routes h)
    · obtain rfl := Entity.eq_of_extensionClass? (Option.mem_toList.1 hc)
      rcases mem_append.1 h with h | h
      · obtain rfl := mem_singleton.1 h
        exact .ofClass (mem_append_left _
          (mem_map.2 ⟨_, mem_clientClasses he mem_cons_self, rfl⟩))
      · exact mentioned_of_clientMethods
          (fun r hr => (mem_filter.1 (mem_filter.1 hr).1).1) h
  · obtain ⟨owner, -, rfl⟩ := mem_map.1 hc
    rcases mem_append.1 h with h | h
    · obtain rfl := mem_singleton.1 h
      exact .ambient (by decide)
    · rcases mem_append.1 h with h | h
      · obtain rfl : name = "ClientConfig" := mem_singleton.1 h
        exact .ambient (by decide)
      · exact mentioned_of_clientMethods (fun r hr => (mem_filter.1 hr).1) h

/-- The most extended class of an entity is one of its classes. -/
theorem Entity.exists_class (e : Entity) :
    ∃ c ∈ e.classes routes, c.name = (e.clientProperty routes).className := by
  unfold classes clientProperty
  cases e.extensionClass? routes with
  | none => exact ⟨_, mem_cons_self, rfl⟩
  | some c => exact ⟨c, by simp, rfl⟩

theorem exists_class_of_property {p : ClientProperty}
    (hp : p ∈ clientProperties schema routes) :
    ∃ c ∈ clientClasses schema routes, c.name = p.className := by
  rcases mem_append.1 (mem_of_mem_distinctBy hp) with hp | hp
  · obtain ⟨e, he, rfl⟩ := mem_map.1 hp
    obtain ⟨c, hc, hname⟩ := e.exists_class
    exact ⟨c, mem_clientClasses he hc, hname⟩
  · obtain ⟨owner, howner, rfl⟩ := mem_map.1 hp
    exact ⟨routes.ownerClass owner, mem_append_right _ (mem_map_of_mem howner), rfl⟩

theorem names_rootClass {properties : List ClientProperty}
    (h : name ∈ (rootClass properties).names) :
    name = "ClientConfig" ∨ ∃ p ∈ properties, name = p.className := by
  have hbody : ∀ ps : List ClientProperty,
      Statement.namesOfStatements (ps.map fun p =>
        construction p.name p.className) = [] := by
    intro ps
    induction ps with
    | nil => rfl
    | cons p ps ih => exact ih
  rcases mem_append.1 h with h | h
  · cases h
  · obtain ⟨member, hmember, hname⟩ := mem_flatMap.1 h
    rcases mem_append.1 hmember with hmember | hmember
    · obtain ⟨p, hp, rfl⟩ := mem_map.1 hmember
      exact .inr ⟨p, hp, mem_singleton.1 hname⟩
    · obtain rfl := mem_singleton.1 hmember
      rcases mem_append.1 hname with hname | hname
      · exact .inl (mem_singleton.1 hname)
      · exact nomatch (hbody properties ▸ hname : name ∈ [])

theorem mentioned_of_item {item : Item} (hitem : item ∈ clientItems schema routes)
    (h : name ∈ item.names) : Mentioned schema routes name := by
  rcases mem_append.1 hitem with hitem | hitem
  · obtain ⟨c, hc, rfl⟩ := mem_map.1 hitem
    exact mentioned_of_class hc h
  rcases mem_cons.1 hitem with rfl | hitem
  · rcases names_rootClass h with rfl | ⟨p, hp, rfl⟩
    · exact .ambient (by decide)
    · obtain ⟨c, hc, hname⟩ := exists_class_of_property hp
      exact .ofClass (mem_append_left _ (mem_map.2 ⟨c, hc, hname⟩))
  · obtain rfl := mem_singleton.1 hitem
    have hnames : name ∈ ["ClientConfig", rootName] := h
    rcases mem_cons.1 hnames with rfl | hnames
    · exact .ambient (by decide)
    · exact .ofClass (mem_append_right _ hnames)

end Client

end TypedContent

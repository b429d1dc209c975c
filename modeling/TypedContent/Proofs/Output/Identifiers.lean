import TypedContent.Proofs.Output.ClientMethods
import TypedContent.Proofs.Output.DeclaredNames
import TypedContent.Proofs.Output.OwnerTypes
import TypedContent.Proofs.TypeScript.Words

/-!
# Identifiers of the generated modules

Types, namespaces, classes, methods and the properties that a client assigns
to itself are printed without quotes, so their names have to be identifiers.
They are put together from fixed endings and from what is spelled of UIDs,
controllers and actions, in five ways: type names, endpoints, namespaces,
camel case and method names. The endings do no harm
(`Alphabet.isWord_append_iff`), so it is down to the spelled names, and
which of them a module shows depends on what is declared: a namespace needs
a type in it, and a class of its own an owner that serves no entity
(`forall_emittedNames_iff`).

Of the five, only the method names take care of a digit in front, and none
takes care of characters that no identifier has. Within ASCII all five keep
the characters of a name but its separators, so the names can be judged by
these (`AsciiNames.spelledWords_iff`). Which characters beyond ASCII are
letters is left open.
-/

namespace TypedContent

open List

open TypeScript (Alphabet Declaration Class Method ClassMember)

namespace TypeScript

/-! ## Names in identifier positions -/

mutual

/-- The names that a declaration introduces, its own and those of its
members. -/
def Declaration.identifiers : Declaration → List String
  | .interface head _ _ => [head.name]
  | .typeAlias head _ => [head.name]
  | .scope head members => head.name :: Declaration.identifiersOf members

def Declaration.identifiersOf : List Declaration → List String
  | [] => []
  | d :: ds => d.identifiers ++ Declaration.identifiersOf ds

end

/-- The names of a class, of its methods, and of its properties, which are
assigned in the constructor. -/
def Class.identifiers (c : Class) : List String :=
  c.name :: (c.methods.map Method.name ++ c.properties.map Prod.fst)

def Module.identifiers (m : Module) : List String :=
  Declaration.identifiersOf m.declarations ++ m.classes.flatMap Class.identifiers

theorem Declaration.identifiersOf_eq (ds : List Declaration) :
    identifiersOf ds = ds.flatMap identifiers := by
  induction ds with
  | nil => rfl
  | cons d ds ih => rw [identifiersOf, ih, flatMap_cons]

theorem Declaration.identifiers_of_isType {d : Declaration} (h : d.isType = true) :
    d.identifiers = [d.name] := by
  cases d with
  | interface | typeAlias => rfl
  | scope => cases h

theorem Declaration.flatMap_identifiers {ds : List Declaration}
    (h : ∀ d ∈ ds, d.isType = true) :
    ds.flatMap identifiers = ds.map name := by
  rw [flatMap_congr fun d hd => identifiers_of_isType (h d hd), map_eq_flatMap]

end TypeScript

/-- Every name that the two modules of a schema and its routes introduce. -/
def emittedNames (schema : Schema) (routes : RouteSet) (settings : Settings)
    (fingerprint : String) : List String :=
  (typesModule schema routes fingerprint).identifiers ++ SharedTypes.names
    ++ (clientModule schema routes (typesModule schema routes fingerprint) settings
      fingerprint).identifiers
    ++ Transport.names

/-! ## Types -/

section

variable {a : Alphabet}

theorem Entity.forall_declarations_iff (e : Entity) (schema : Schema) :
    (∀ name ∈ (e.declarations schema).flatMap Declaration.identifiers,
      a.isWord name = true)
      ↔ a.isWord e.typeName = true := by
  have hletters : ∀ ending ∈ nameEndings,
      ending = "" ∨ TypeScript.isIdentifier ending.toList = true := by decide
  rw [Declaration.flatMap_identifiers fun d => e.isType_of_mem_declarations,
    e.names_declarations, forall_mem_map]
  constructor
  · intro h
    have hname := h "" mem_cons_self
    rwa [String.append_empty] at hname
  · intro h ending hending
    rcases hletters ending (e.derivedEndings_subset hending) with rfl | hending
    · rwa [String.append_empty]
    · exact (Alphabet.isWord_append_iff hending).2 (.inr h)

namespace RouteSet

variable {s : RouteSet}

theorem mem_qualifiedAliases_iff (hs : s.NamesTargets) {q : String × String} :
    q ∈ s.qualifiedAliases
      ↔ ∃ r ∈ s.routes, ∃ slot, s.Declares r slot
        ∧ q = (s.namespaceName r.owner, slot.aliasName r.action) := by
  rw [qualifiedAliases_eq, mem_flatMap]
  constructor
  · rintro ⟨r, hr, hq⟩
    exact ⟨r, mem_routes_of_mem_declaring hr, mem_routeAliases.1 hq⟩
  · rintro ⟨r, hr, hq⟩
    obtain ⟨r', hr', howner, hhandler⟩ := exists_mem_declaring hr
    refine ⟨r', hr', ?_⟩
    rw [routeAliases_congr hs (mem_routes_of_mem_declaring hr') hr howner hhandler]
    exact mem_routeAliases.2 hq

theorem isType_of_mem_ownerAliases {owner : Owner} {d : Declaration}
    (h : d ∈ s.ownerAliases owner) :
    d.isType = true := by
  rw [ownerAliases_eq] at h
  obtain ⟨⟨r, slot⟩, -, hd⟩ := mem_filterMap.1 h
  obtain ⟨text, -, rfl⟩ := Option.map_eq_some_iff.1 hd
  rfl

/-- Every namespace has a member, so the names in the namespaces are those
in the qualified names. -/
theorem mem_identifiers_namespaces {name : String} :
    name ∈ s.namespaces.flatMap Declaration.identifiers
      ↔ ∃ q ∈ s.qualifiedAliases, name = q.1 ∨ name = q.2 := by
  have hnamespace : ∀ d ∈ s.namespaces,
      (name ∈ d.identifiers ↔ ∃ q ∈ d.qualifiedMembers, name = q.1 ∨ name = q.2) := by
    intro d hd
    obtain ⟨owner, -, hd⟩ := mem_filterMap.1 hd
    rw [ownerNamespace?] at hd
    split at hd
    · cases hd
    · rename_i hne
      obtain rfl := Option.some.inj hd
      rw [Declaration.identifiers, Declaration.identifiersOf_eq,
        Declaration.flatMap_identifiers fun d => isType_of_mem_ownerAliases,
        mem_cons, mem_map]
      constructor
      · rintro (rfl | ⟨d, hd, rfl⟩)
        · obtain ⟨first, hfirst⟩ := exists_mem_of_ne_nil _ hne
          exact ⟨_, mem_map_of_mem hfirst, .inl rfl⟩
        · exact ⟨_, mem_map_of_mem hd, .inr rfl⟩
      · rintro ⟨q, hq, hname⟩
        obtain ⟨d, hd, rfl⟩ := mem_map.1 hq
        exact hname.imp id fun h => ⟨d, hd, h.symm⟩
  rw [qualifiedAliases, mem_flatMap]
  constructor
  · rintro ⟨d, hd, hname⟩
    obtain ⟨q, hq, hname⟩ := (hnamespace d hd).1 hname
    exact ⟨q, mem_flatMap.2 ⟨d, hd, hq⟩, hname⟩
  · rintro ⟨q, hq, hname⟩
    obtain ⟨d, hd, hq⟩ := mem_flatMap.1 hq
    exact ⟨d, hd, (hnamespace d hd).2 ⟨q, hq, hname⟩⟩

theorem forall_namespaces_iff (hs : s.NamesTargets) :
    (∀ name ∈ s.namespaces.flatMap Declaration.identifiers, a.isWord name = true)
      ↔ ∀ r ∈ s.routes, ∀ slot, s.Declares r slot →
        a.isWord (s.namespaceName r.owner) = true
          ∧ a.isWord (slot.aliasName r.action) = true := by
  constructor
  · intro h r hr slot hslot
    have hmem := (mem_qualifiedAliases_iff hs).2 ⟨r, hr, slot, hslot, rfl⟩
    exact ⟨h _ (mem_identifiers_namespaces.2 ⟨_, hmem, .inl rfl⟩),
      h _ (mem_identifiers_namespaces.2 ⟨_, hmem, .inr rfl⟩)⟩
  · intro h name hname
    obtain ⟨q, hq, hname⟩ := mem_identifiers_namespaces.1 hname
    obtain ⟨r, hr, slot, hslot, rfl⟩ := (mem_qualifiedAliases_iff hs).1 hq
    rcases hname with rfl | rfl
    · exact (h r hr slot hslot).1
    · exact (h r hr slot hslot).2

end RouteSet

theorem Slot.isWord_aliasName_iff {slot : Slot} {action : String} :
    a.isWord (slot.aliasName action) = true
      ↔ Naming.pascalCase action.toList = []
        ∨ a.isWord (String.ofList (Naming.pascalCase action.toList)) = true := by
  have hletters : TypeScript.isIdentifier slot.suffix.toList = true := by
    cases slot <;> decide
  rw [Slot.aliasName, Alphabet.isWord_append_iff hletters]
  simp

/-! ## Classes -/

/-- What holds of all keys of the distinct members of a list holds of all
keys of its members. -/
theorem forall_distinctBy_iff {α κ : Type} [DecidableEq κ] (key : α → κ)
    {p : κ → Prop} {xs : List α} :
    (∀ x ∈ distinctBy key xs, p (key x)) ↔ ∀ x ∈ xs, p (key x) := by
  constructor
  · intro h x hx
    obtain ⟨y, hy, hkey⟩ := exists_mem_distinctBy key hx
    rw [← hkey]
    exact h y hy
  · exact fun h x hx => h x (mem_of_mem_distinctBy hx)

theorem RouteSet.forall_clientMethods_iff (s : RouteSet) (chosen : List Route) :
    (∀ name ∈ (s.clientMethods chosen).map Method.name, a.isWord name = true)
      ↔ ∀ r ∈ chosen, a.isWord r.methodName = true := by
  rw [clientMethods, map_map, forall_mem_map]
  exact forall_distinctBy_iff Route.methodName (p := (a.isWord · = true))

/-- A class of methods, with a constructor in front or without one. -/
theorem identifiers_of_methods {c : TypeScript.Class} {front : List ClassMember}
    {methods : List Method}
    (hmembers : c.members = front ++ methods.map ClassMember.method)
    (hfront : ∀ m ∈ front, ∃ parameters body, m = .constructor parameters body) :
    c.identifiers = c.name :: methods.map Method.name := by
  have hmethods : c.methods = methods := by
    have hnone : front.filterMap ClassMember.method? = [] := by
      refine filterMap_eq_nil_iff.2 fun m hm => ?_
      obtain ⟨parameters, body, rfl⟩ := hfront m hm
      rfl
    rw [Class.methods, hmembers, filterMap_append, hnone, filterMap_method?, nil_append]
  have hproperties : c.properties = [] := by
    rw [Class.properties, hmembers]
    refine filterMap_eq_nil_iff.2 fun m hm => ?_
    rcases mem_append.1 hm with hm | hm
    · obtain ⟨parameters, body, rfl⟩ := hfront m hm
      rfl
    · obtain ⟨method, -, rfl⟩ := mem_map.1 hm
      rfl
  rw [Class.identifiers, hmethods, hproperties, map_nil, append_nil]

theorem forall_standardClass_iff (e : Entity) (routes : RouteSet) :
    (∀ name ∈ (e.standardClass routes).identifiers, a.isWord name = true)
      ↔ e.typeName = "" ∨ a.isWord e.typeName = true := by
  have hnames : ∀ kind : EntityKind, ∀ name ∈ kind.standardNames,
      TypeScript.isIdentifier name.toList = true := by
    intro kind
    cases kind <;> decide
  have hconstructor : ∀ m ∈ [endpointConstructor (e.endpoint routes)],
      ∃ parameters body, m = ClassMember.constructor parameters body :=
        fun m hm => ⟨_, _, mem_singleton.1 hm⟩
  rw [identifiers_of_methods (c := e.standardClass routes) rfl hconstructor,
    e.methodNames_standardMethods, forall_mem_cons]
  refine (and_iff_left fun name hname =>
    Alphabet.isWord_of_isIdentifier (hnames e.kind name hname)).trans ?_
  exact Alphabet.isWord_append_iff (by decide)

theorem forall_extensionClass_iff (e : Entity) (routes : RouteSet)
    (htype : e.typeName = "" ∨ a.isWord e.typeName = true) :
    (∀ name ∈ (e.extensionClass? routes).toList.flatMap Class.identifiers,
      a.isWord name = true)
      ↔ ∀ r ∈ routes.ownedBy e.owner, r.action ∉ coreActions →
        a.isWord r.methodName = true := by
  have hcustom :
      (∀ name ∈ (routes.extensionMethods e.owner).map Method.name, a.isWord name = true)
      ↔ ∀ r ∈ routes.ownedBy e.owner, r.action ∉ coreActions →
        a.isWord r.methodName = true := by
    rw [RouteSet.extensionMethods, RouteSet.forall_clientMethods_iff]
    simp only [routes.mem_customRoutes, and_imp]
  have hname : a.isWord (TypeName.extendedApi e.typeName) = true :=
    (Alphabet.isWord_append_iff (by decide)).2 htype
  rw [← hcustom]
  unfold Entity.extensionClass?
  split
  · rename_i hnone
    rw [hnone]
    simp
  · have hnone : ∀ m ∈ ([] : List ClassMember), ∃ parameters body,
        m = ClassMember.constructor parameters body := by
      simp
    rw [Option.toList_some, flatMap_singleton, identifiers_of_methods rfl hnone,
      forall_mem_cons]
    exact and_iff_right hname

theorem forall_ownerClass_iff (routes : RouteSet) (owner : Owner) :
    (∀ name ∈ (routes.ownerClass owner).identifiers, a.isWord name = true)
      ↔ (routes.namespaceName owner = "" ∨ a.isWord (routes.namespaceName owner) = true)
        ∧ ∀ r ∈ routes.ownedBy owner, a.isWord r.methodName = true := by
  have hconstructor : ∀ m ∈ [endpointConstructor ""],
      ∃ parameters body, m = ClassMember.constructor parameters body :=
        fun m hm => ⟨_, _, mem_singleton.1 hm⟩
  rw [identifiers_of_methods (c := routes.ownerClass owner) rfl hconstructor,
    forall_mem_cons, RouteSet.forall_clientMethods_iff]
  exact and_congr_left' (Alphabet.isWord_append_iff (by decide))

theorem forall_rootClass_iff (schema : Schema) (routes : RouteSet) :
    (∀ name ∈ (rootClass (clientProperties schema routes)).identifiers,
      a.isWord name = true)
      ↔ (∀ e ∈ schema.entities, a.isWord (camelName e.endpointName) = true)
        ∧ ∀ owner ∈ routes.standaloneOwners schema,
          a.isWord (camelName (routes.qualifiedName owner)) = true := by
  have hmethods : ∀ ps : List ClientProperty, (rootClass ps).methods = [] := by
    intro ps
    simp [Class.methods, rootClass, ClassMember.method?, filterMap_map, Function.comp_def]
  have hroot : a.isWord rootName = true := Alphabet.isWord_of_isIdentifier (by decide)
  rw [Class.identifiers, hmethods, properties_rootClass, map_nil, nil_append, map_map,
    forall_mem_cons, forall_mem_map]
  refine (and_iff_right hroot).trans
    ((forall_distinctBy_iff ClientProperty.name (p := (a.isWord · = true))).trans ?_)
  rw [forall_mem_append, forall_mem_map, forall_mem_map]
  rfl

end

/-! ## All names -/

/-- Whether the client has a method for a route: the route belongs to an
owner with a class of its own, or to an entity and is no core action. -/
def RouteSet.HasMethod (routes : RouteSet) (schema : Schema) (r : Route) : Prop :=
  r.owner ∈ routes.standaloneOwners schema
    ∨ (∃ e ∈ schema.entities, e.owner = r.owner) ∧ r.action ∉ coreActions

/-- The names that are spelled from UIDs, controllers and actions are
words. -/
structure SpelledWords (a : Alphabet) (schema : Schema) (routes : RouteSet) : Prop where
  types : ∀ e ∈ schema.all, a.isWord e.typeName = true
  properties : ∀ e ∈ schema.entities, a.isWord (camelName e.endpointName) = true
  namespaces : ∀ r ∈ routes.routes, ∀ slot, routes.Declares r slot →
    a.isWord (routes.namespaceName r.owner) = true
  /-- The name of a type ends in the word for its slot, so what is spelled
  from the action may be empty. -/
  aliases : ∀ r ∈ routes.routes, ∀ slot, routes.Declares r slot →
    Naming.pascalCase r.action.toList = []
    ∨ a.isWord (String.ofList (Naming.pascalCase r.action.toList)) = true
  owners : ∀ owner ∈ routes.standaloneOwners schema,
    (routes.namespaceName owner = "" ∨ a.isWord (routes.namespaceName owner) = true)
      ∧ a.isWord (camelName (routes.qualifiedName owner)) = true
  methods : ∀ r ∈ routes.routes, routes.HasMethod schema r → a.isWord r.methodName = true

section

variable {a : Alphabet} (schema : Schema) (routes : RouteSet) (settings : Settings)
  (fingerprint : String)

theorem identifiers_typesModule :
    (typesModule schema routes fingerprint).identifiers
      = (schema.all.flatMap fun e =>
        (e.declarations schema).flatMap Declaration.identifiers)
        ++ routes.namespaces.flatMap Declaration.identifiers := by
  have hclasses : (typesModule schema routes fingerprint).classes = [] := by
    refine filterMap_eq_nil_iff.2 fun item hitem => ?_
    rcases mem_cons.1 hitem with rfl | hitem
    · rfl
    · obtain ⟨d, -, rfl⟩ := mem_map.1 hitem
      rfl
  rw [TypeScript.Module.identifiers, hclasses, declarations_typesModule, typeDeclarations,
    Declaration.identifiersOf_eq, flatMap_append, flatMap_assoc, flatMap_nil, append_nil]

theorem identifiers_clientModule (types : TypeScript.Module) :
    (clientModule schema routes types settings fingerprint).identifiers
      = (schema.entities.flatMap fun e => (e.classes routes).flatMap Class.identifiers)
        ++ ((routes.standaloneOwners schema).flatMap fun owner =>
          (routes.ownerClass owner).identifiers)
        ++ (rootClass (clientProperties schema routes)).identifiers := by
  have hdeclarations :
      (clientModule schema routes types settings fingerprint).declarations = [] := by
    have hitems : ∀ item ∈ clientItems schema routes, item.declaration? = none := by
      intro item hitem
      rcases mem_append.1 hitem with hitem | hitem
      · obtain ⟨c, -, rfl⟩ := mem_map.1 hitem
        rfl
      · simp only [mem_cons, not_mem_nil, or_false] at hitem
        rcases hitem with rfl | rfl <;> rfl
    rw [TypeScript.Module.declarations, clientModule, filterMap_cons_none rfl]
    exact filterMap_eq_nil_iff.2 hitems
  rw [TypeScript.Module.identifiers, hdeclarations, classes_clientModule, clientClasses]
  simp [TypeScript.Declaration.identifiersOf, flatMap_append, flatMap_assoc, flatMap_map]

theorem forall_typesModule_iff (hroutes : routes.NamesTargets) :
    (∀ name ∈ (typesModule schema routes fingerprint).identifiers, a.isWord name = true)
      ↔ (∀ e ∈ schema.all, a.isWord e.typeName = true)
        ∧ ∀ r ∈ routes.routes, ∀ slot, routes.Declares r slot →
          a.isWord (routes.namespaceName r.owner) = true
            ∧ a.isWord (slot.aliasName r.action) = true := by
  rw [identifiers_typesModule, forall_mem_append,
    RouteSet.forall_namespaces_iff hroutes, forall_mem_flatMap]
  exact and_congr_left' (forall₂_congr fun e _ => e.forall_declarations_iff schema)

theorem forall_clientModule_iff (types : TypeScript.Module) :
    (∀ name ∈ (clientModule schema routes types settings fingerprint).identifiers,
      a.isWord name = true)
      ↔ (∀ e ∈ schema.entities, (e.typeName = "" ∨ a.isWord e.typeName = true)
          ∧ ∀ r ∈ routes.ownedBy e.owner, r.action ∉ coreActions →
            a.isWord r.methodName = true)
        ∧ (∀ owner ∈ routes.standaloneOwners schema,
          (routes.namespaceName owner = "" ∨ a.isWord (routes.namespaceName owner) = true)
            ∧ ∀ r ∈ routes.ownedBy owner, a.isWord r.methodName = true)
        ∧ (∀ e ∈ schema.entities, a.isWord (camelName e.endpointName) = true)
        ∧ ∀ owner ∈ routes.standaloneOwners schema,
          a.isWord (camelName (routes.qualifiedName owner)) = true := by
  have hentity : ∀ e : Entity,
      (∀ name ∈ (e.classes routes).flatMap Class.identifiers, a.isWord name = true)
      ↔ (e.typeName = "" ∨ a.isWord e.typeName = true)
        ∧ ∀ r ∈ routes.ownedBy e.owner, r.action ∉ coreActions →
          a.isWord r.methodName = true := by
    intro e
    rw [Entity.classes, flatMap_cons, forall_mem_append, forall_standardClass_iff]
    exact and_congr_right (forall_extensionClass_iff e routes)
  rw [identifiers_clientModule, forall_mem_append, forall_mem_append,
    forall_rootClass_iff, and_assoc, forall_mem_flatMap, forall_mem_flatMap]
  exact and_congr (forall₂_congr fun e _ => hentity e)
    (and_congr_left' (forall₂_congr fun owner _ => forall_ownerClass_iff routes owner))

theorem forall_emittedNames_iff (hroutes : routes.NamesTargets) :
    (∀ name ∈ emittedNames schema routes settings fingerprint, a.isWord name = true)
      ↔ SpelledWords a schema routes := by
  have hfixed : ∀ name ∈ SharedTypes.names ++ Transport.names, a.isWord name = true := by
    have hletters : ∀ name ∈ SharedTypes.names ++ Transport.names,
        TypeScript.isIdentifier name.toList = true := by
      decide
    exact fun name hname => Alphabet.isWord_of_isIdentifier (hletters name hname)
  have howned : ∀ {owner : Owner} {r : Route}, r ∈ routes.ownedBy owner
      ↔ r ∈ routes.routes ∧ r.owner = owner := by
    intro owner r
    rw [RouteSet.ownedBy, mem_filter, decide_eq_true_iff]
  rw [emittedNames, forall_mem_append, forall_mem_append, forall_mem_append,
    forall_typesModule_iff schema routes fingerprint hroutes, forall_clientModule_iff]
  rw [forall_mem_append] at hfixed
  constructor
  · rintro ⟨⟨⟨⟨htypes, hroutes⟩, -⟩, hclasses, howners, hproperties, howned'⟩, -⟩
    exact
      { types := htypes
        properties := hproperties
        namespaces := fun r hr slot hslot => (hroutes r hr slot hslot).1
        aliases :=
          fun r hr slot hslot => Slot.isWord_aliasName_iff.1 (hroutes r hr slot hslot).2
        owners := fun owner howner => ⟨(howners owner howner).1, howned' owner howner⟩
        methods := fun r hr hmethod => by
          rcases hmethod with howner | ⟨⟨e, he, howner⟩, hcore⟩
          · exact (howners r.owner howner).2 r (howned.2 ⟨hr, rfl⟩)
          · exact (hclasses e he).2 r (howned.2 ⟨hr, howner.symm⟩) hcore }
  · intro h
    refine ⟨⟨⟨⟨h.types, fun r hr slot hslot =>
        ⟨h.namespaces r hr slot hslot,
          Slot.isWord_aliasName_iff.2 (h.aliases r hr slot hslot)⟩⟩, hfixed.1⟩,
      fun e he => ⟨.inr (h.types e (mem_append_right _ he)), fun r hr hcore => ?_⟩,
      fun owner howner => ⟨(h.owners owner howner).1, fun r hr => ?_⟩,
      h.properties, fun owner howner => (h.owners owner howner).2⟩, hfixed.2⟩
    · obtain ⟨hmem, heq⟩ := howned.1 hr
      exact h.methods r hmem (.inr ⟨⟨e, he, heq.symm⟩, hcore⟩)
    · obtain ⟨hmem, rfl⟩ := howned.1 hr
      exact h.methods r hmem (.inl howner)

end

/-! ## Names in ASCII -/

/-- The part of a UID that its type name is spelled from. -/
def Uid.namePart (uid : String) : String :=
  match split uid with
  | (some _, _) => lastSegment uid
  | (none, rest) => rest

theorem Uid.typeName_eq (uid : String) :
    typeName uid = String.ofList (Naming.pascalCase (namePart uid).toList) := by
  unfold typeName namePart
  rcases split uid with ⟨_ | space, rest⟩
  · rfl
  · rfl

/-- What names are spelled from is in ASCII. -/
structure AsciiNames (schema : Schema) (routes : RouteSet) : Prop where
  uids : ∀ e ∈ schema.all, Text.IsAscii (Uid.namePart e.uid).toList
  controllers : ∀ r ∈ routes.routes, Text.IsAscii r.controller.toList
  plugins : ∀ r ∈ routes.routes, ∀ plugin ∈ r.plugin, Text.IsAscii plugin.toList
  actions : ∀ r ∈ routes.routes, Text.IsAscii r.action.toList

/-- What names are spelled from are identifiers, once the separators are
taken out. -/
structure PlainNames (schema : Schema) (routes : RouteSet) : Prop where
  uids : ∀ e ∈ schema.all, TypeScript.isIdentifier
    (Naming.bare (Uid.namePart e.uid).toList) = true
  owners : ∀ r ∈ routes.routes, (∃ slot, routes.Declares r slot)
    ∨ r.owner ∈ routes.standaloneOwners schema →
    TypeScript.isIdentifier (Naming.bare (routes.qualifiedName r.owner).toList) = true
  /-- The name of a type ends in the word for its slot. -/
  types : ∀ r ∈ routes.routes, (∃ slot, routes.Declares r slot) →
    Naming.bare r.action.toList = []
      ∨ TypeScript.isIdentifier (Naming.bare r.action.toList) = true
  /-- The name of a method has a low line in front where it is needed. -/
  methods : ∀ r ∈ routes.routes, routes.HasMethod schema r →
    (TypeScript.bareAction r.action.toList).all TypeScript.isIdentifierPart = true

namespace AsciiNames

variable {a : Alphabet} {schema : Schema} {routes : RouteSet}
  (h : AsciiNames schema routes)

include h

theorem qualifiedName {r : Route} (hr : r ∈ routes.routes) :
    Text.IsAscii (routes.qualifiedName r.owner).toList := by
  unfold RouteSet.qualifiedName
  split
  · rename_i plugin hplugin
    split
    · rw [String.toList_append, String.toList_append]
      exact ((h.plugins r hr plugin hplugin).append (by decide)).append
        (h.controllers r hr)
    · exact h.controllers r hr
  · exact h.controllers r hr

theorem isWord_namespaceName {r : Route} (hr : r ∈ routes.routes) :
    a.isWord (routes.namespaceName r.owner)
      = TypeScript.isIdentifier (Naming.bare (routes.qualifiedName r.owner).toList) :=
  Alphabet.isWord_namespaceName (h.qualifiedName hr)

theorem isWord_ownerProperty {r : Route} (hr : r ∈ routes.routes) :
    a.isWord (camelName (routes.qualifiedName r.owner))
      = TypeScript.isIdentifier (Naming.bare (routes.qualifiedName r.owner).toList) :=
  Alphabet.isWord_camelCase (h.qualifiedName hr)

theorem isWord_alias_iff {r : Route} (hr : r ∈ routes.routes) :
    (Naming.pascalCase r.action.toList = []
      ∨ a.isWord (String.ofList (Naming.pascalCase r.action.toList)) = true)
      ↔ Naming.bare r.action.toList = []
        ∨ TypeScript.isIdentifier (Naming.bare r.action.toList) = true := by
  rw [Alphabet.isWord_pascalCase (h.actions r hr), ← Text.fold_eq_nil_iff,
    Naming.fold_pascalCase (h.actions r hr), Text.fold_eq_nil_iff]

theorem spelledWords_iff (htypes : ∀ e ∈ schema.all, e.typeName = Uid.typeName e.uid) :
    SpelledWords a schema routes ↔ PlainNames schema routes := by
  have htype : ∀ e ∈ schema.all,
      a.isWord e.typeName = TypeScript.isIdentifier
        (Naming.bare (Uid.namePart e.uid).toList) := by
    intro e he
    rw [htypes e he, Uid.typeName_eq, Alphabet.isWord_pascalCase (h.uids e he)]
  have howner : ∀ owner ∈ routes.standaloneOwners schema, ∃ r ∈ routes.routes,
      r.owner = owner := by
    intro owner howner
    exact RouteSet.mem_owners_iff.1 (mem_of_mem_filter (mem_of_mem_distinctBy howner))
  constructor
  · intro hwords
    exact
      { uids := fun e he => htype e he ▸ hwords.types e he
        owners := fun r hr hshown => by
          rcases hshown with ⟨slot, hslot⟩ | hstandalone
          · rw [← h.isWord_namespaceName (a := a) hr]
            exact hwords.namespaces r hr slot hslot
          · rw [← h.isWord_ownerProperty (a := a) hr]
            exact (hwords.owners r.owner hstandalone).2
        types := fun r hr ⟨slot, hslot⟩ =>
          (h.isWord_alias_iff hr).1 (hwords.aliases r hr slot hslot)
        methods := fun r hr hmethod =>
          (Alphabet.isWord_methodName_iff (h.actions r hr)).1
            (hwords.methods r hr hmethod) }
  · intro hplain
    exact
      { types := fun e he => by rw [htype e he, hplain.uids e he]
        properties := fun e he => by
          have hall : e ∈ schema.all := mem_append_right _ he
          rw [camelName, Entity.endpointName, String.toList_ofList, htypes e hall,
            Uid.typeName_eq, String.toList_ofList]
          exact Alphabet.isWord_endpointName (h.uids e hall) (hplain.uids e hall) _
        namespaces := fun r hr slot hslot => by
          rw [h.isWord_namespaceName hr]
          exact hplain.owners r hr (.inl ⟨slot, hslot⟩)
        aliases := fun r hr slot hslot =>
          (h.isWord_alias_iff hr).2 (hplain.types r hr ⟨slot, hslot⟩)
        owners := fun owner hstandalone => by
          obtain ⟨r, hr, rfl⟩ := howner owner hstandalone
          rw [h.isWord_namespaceName hr, h.isWord_ownerProperty hr]
          have hname := hplain.owners r hr (.inr hstandalone)
          exact ⟨.inr hname, hname⟩
        methods := fun r hr hmethod =>
          (Alphabet.isWord_methodName_iff (h.actions r hr)).2
            (hplain.methods r hr hmethod) }

end AsciiNames

/-- **Which names are identifiers.** The names of the generated types,
namespaces, classes, methods and properties are all words of an alphabet
exactly if those spelled from UIDs, controllers and actions are. Where these
are in ASCII, it is enough to look at them as they are given: without its
separators, each has to be an identifier. An action may be empty then if a
type is named after it, and may start with a digit if a method is. -/
theorem emitted_names_identifiers_iff (a : Alphabet)
    (components entities : List DeclaredEntity) (filter : Filter)
    (ds : List RouteDescriptor) (settings : Settings) (fingerprint : String) :
    let schema := Schema.assemble components entities filter
    let routes := RouteSet.ofDescriptors ds
    ((∀ name ∈ emittedNames schema routes settings fingerprint, a.isWord name = true)
      ↔ SpelledWords a schema routes)
      ∧ (AsciiNames schema routes →
        ((∀ name ∈ emittedNames schema routes settings fingerprint, a.isWord name = true)
          ↔ PlainNames schema routes)) := by
  intro schema routes
  have htypes : ∀ e ∈ schema.all, e.typeName = Uid.typeName e.uid := by
    intro e he
    obtain ⟨d, kind, rfl⟩ := Schema.exists_assemble_of_mem_all he
    rfl
  have hwords := forall_emittedNames_iff (a := a) schema routes settings fingerprint
    (RouteSet.namesTargets_ofDescriptors ds)
  exact ⟨hwords, fun hascii => hwords.trans (hascii.spelledWords_iff htypes)⟩

def declaredGuideType : DeclaredEntity :=
  { uid := "api::guide-type.guide-type", kind := .collection, fields := [] }

def chatRoutes : List RouteDescriptor :=
  [{ method := "POST", path := "/chat/2fa", handler := "ai-chat.2fa" },
    { method := "POST", path := "/chat", handler := "ai-chat.send_message",
      types := some { body := "string" } }]

/-- The entities of a schema with one declared entity. -/
theorem assemble_singleton {d : DeclaredEntity} (h : Filter.allows {} d.uid = true) :
    Schema.assemble [] [d] {} = { entities := [d.assemble ⟨[d.uid], []⟩ {} d.kind],
                                  components := [] } := by
  have hallowed : [d].filter (fun e => Filter.allows {} e.uid) = [d] := by simp [h]
  have hsorted : sortByKey DeclaredEntity.uid [d] = [d] :=
    sortByKey_of_sorted (pairwise_singleton _ _)
  have hnone : sortByKey DeclaredEntity.uid [] = [] := sortByKey_of_sorted .nil
  rw [Schema.assemble, hallowed, hsorted, hnone]
  rfl

theorem emitted_names_identifiers_guide :
    AsciiNames (Schema.assemble [] [declaredGuideType] {})
      (RouteSet.ofDescriptors chatRoutes)
      ∧ ∀ name ∈ emittedNames (Schema.assemble [] [declaredGuideType] {})
        (RouteSet.ofDescriptors chatRoutes) {} "",
        Alphabet.ascii.isWord name = true := by
  have huids : ∀ e ∈ (Schema.assemble [] [declaredGuideType] {}).all,
      e.uid = "api::guide-type.guide-type" := by
    rw [assemble_singleton (by decide +kernel)]
    simp [Schema.all, DeclaredEntity.assemble, declaredGuideType]
  have hascii : AsciiNames (Schema.assemble [] [declaredGuideType] {})
      (RouteSet.ofDescriptors chatRoutes) :=
    { uids := fun e he => by
        rw [huids e he]
        decide +kernel
      controllers := by decide +kernel
      plugins := by decide +kernel
      actions := by decide +kernel }
  have howners : ∀ r ∈ (RouteSet.ofDescriptors chatRoutes).routes, TypeScript.isIdentifier
      (Naming.bare ((RouteSet.ofDescriptors chatRoutes).qualifiedName r.owner).toList)
        = true := by
    decide +kernel
  have hmethods : ∀ r ∈ (RouteSet.ofDescriptors chatRoutes).routes,
      (TypeScript.bareAction r.action.toList).all TypeScript.isIdentifierPart = true := by
    decide +kernel
  have htypes : ∀ r ∈ (RouteSet.ofDescriptors chatRoutes).routes, ∀ slot ∈ Slot.all,
      (((RouteSet.ofDescriptors chatRoutes).typesOf? r.handler).bind fun types =>
        types.get slot).isSome = true →
        TypeScript.isIdentifier (Naming.bare r.action.toList) = true := by
    decide +kernel
  have hslots : ∀ slot : Slot, slot ∈ Slot.all := by
    intro slot
    cases slot <;> decide
  exact ⟨hascii, ((emitted_names_identifiers_iff .ascii [] [declaredGuideType]
    {} chatRoutes {} "").2 hascii).2
    { uids := fun e he => by
        rw [huids e he]
        decide +kernel
      owners := fun r hr _ => howners r hr
      types := by
        rintro r hr ⟨slot, hslot⟩
        exact .inr (htypes r hr slot (hslots slot) hslot)
      methods := fun r hr _ => hmethods r hr }⟩

def declaredTwoFactor : DeclaredEntity :=
  { uid := "api::2fa.2fa", kind := .collection, fields := [] }

/-- Only method names are kept from starting with a digit, and they are not
kept from other characters. -/
theorem names_of_no_alphabet :
    (∀ name ∈ ["2fa", "2faInput", "2faAPI", "2fas"],
        name ∈ emittedNames (Schema.assemble [] [declaredTwoFactor] {}) {} {} "")
      ∧ "y/z" ∈ emittedNames ⟨[], []⟩
        (.ofDescriptors [{ method := "GET", path := "/y", handler := "shop.y/z" }])
        {} ""
      ∧ ∀ a : Alphabet, ∀ name ∈ ["2fa", "2faInput", "2faAPI", "2fas", "y/z"],
        a.isWord name = false := by
  refine ⟨?_, ?_, fun a => ?_⟩
  · rw [assemble_singleton (by decide +kernel)]
    decide +kernel
  · decide +kernel
  · have hascii : ∀ name ∈ ["2fa", "2faInput", "2faAPI", "2fas", "y/z"],
        Text.IsAscii name.toList ∧ TypeScript.isIdentifier name.toList = false := by
          decide
    intro name hname
    obtain ⟨hletters, hno⟩ := hascii name hname
    rw [← hno, ← Alphabet.isWord_ofList (a := a) hletters, String.ofList_toList]

end TypedContent

import TypedContent.Proofs.Output.ClientMethods
import TypedContent.Proofs.Output.RouteAliases

/-!
# Declared names

Each generated module has one flat space of names. A types module fills it
with the names that are made of the type name of an entity and an ending,
and with the shared ones; a client module with its imports, its transport,
its classes and a function. Names with distinct stems can only meet if one
ending ends in the other (`nodup_names_iff`), so the clashes can be listed:
`Schema.TypesApart` and `ClientApart` say that none of them occurs, and the
names of a module are distinct exactly if they hold
(`declared_names_nodup_iff`).
-/

namespace TypedContent

open List TypeScript

variable {d : Declaration} {z stem a b ending name : String}

/-! ## Stems and endings -/

theorem exists_of_append_eq {x y : String} (h : x ++ a = y ++ b) :
    (∃ z, x = y ++ z ∧ b = z ++ a) ∨ ∃ z, y = x ++ z ∧ a = z ++ b := by
  have hlist := congrArg String.toList h
  simp only [String.toList_append] at hlist
  rcases append_eq_append_iff.1 hlist with ⟨cs, hy, ha⟩ | ⟨cs, hx, hb⟩
  · refine .inr ⟨String.ofList cs, String.toList_inj.1 ?_, String.toList_inj.1 ?_⟩
    · rw [String.toList_append, String.toList_ofList, hy]
    · rw [String.toList_append, String.toList_ofList, ha]
  · refine .inl ⟨String.ofList cs, String.toList_inj.1 ?_, String.toList_inj.1 ?_⟩
    · rw [String.toList_append, String.toList_ofList, hx]
    · rw [String.toList_append, String.toList_ofList, hb]

theorem suffix_append (stem ending : String) :
    ending.toList <:+ (stem ++ ending).toList :=
  ⟨stem.toList, String.toList_append.symm⟩

theorem append_injective (stem : String) : Function.Injective (stem ++ ·) :=
  fun _ _ h => (String.append_right_inj stem).1 h

/-- Names of distinct stems are distinct unless a stem is another one with
what an ending has in front of another. -/
theorem nodup_names_iff {α : Type} {stem : α → String} {endings : α → List String}
    {xs : List α} (hstem : (xs.map stem).Nodup)
    (hendings : ∀ x ∈ xs, (endings x).Nodup) :
    (xs.flatMap fun x => (endings x).map (stem x ++ ·)).Nodup
      ↔ ∀ x ∈ xs, ∀ y ∈ xs, ∀ a ∈ endings x, ∀ b ∈ endings y, ∀ z,
        z ≠ "" → b = z ++ a → stem x ≠ stem y ++ z := by
  rw [nodup_flatMap_iff hstem fun x hx => (hendings x hx).map (append_injective _)]
  constructor
  · intro h x hx y hy a ha b hb z hz hb' hx'
    have hname : stem y ++ b = stem x ++ a := by rw [hx', hb', String.append_assoc]
    have hsame :=
      h x hx y hy (stem x ++ a) (mem_map_of_mem ha) (hname ▸ mem_map_of_mem hb)
    have hempty : stem y ++ z = stem y ++ "" := by rw [← hx', hsame, String.append_empty]
    exact hz ((String.append_right_inj _).1 hempty)
  · intro h x hx y hy name hnamex hnamey
    obtain ⟨a, ha, rfl⟩ := mem_map.1 hnamex
    obtain ⟨b, hb, heq⟩ := mem_map.1 hnamey
    by_contra hne
    rcases exists_of_append_eq heq with ⟨z, hstems, ha'⟩ | ⟨z, hstems, hb'⟩
    · refine h y hy x hx b hb a ha z (fun hz => hne ?_) ha' hstems
      rw [hstems, hz, String.append_empty]
    · refine h x hx y hy a ha b hb z (fun hz => hne ?_) hb' hstems
      rw [hstems, hz, String.append_empty]

/-! ## The types module -/

namespace Entity

variable (e : Entity)

/-- What the declarations of an entity add to its type name, apart from the
one that adds nothing. -/
def derivedEndings : List String :=
  "Input" :: (if e.isPopulatable then ["PopulateParam", "Populate", "WithPopulate"]
    else []) ++ ["Filters"]

theorem names_declarations (schema : Schema) :
    (e.declarations schema).map Declaration.name
      = ("" :: e.derivedEndings).map (e.typeName ++ ·) := by
  have hbase : e.typeName ++ "" = e.typeName := String.append_empty
  unfold declarations derivedEndings
  split <;> simp only [map_cons, map_nil, nil_append, cons_append, hbase] <;> rfl

theorem derivedEndings_subset : "" :: e.derivedEndings ⊆ nameEndings := by
  unfold derivedEndings
  split <;> decide

theorem nodup_derivedEndings : ("" :: e.derivedEndings).Nodup := by
  unfold derivedEndings
  split <;> decide

theorem isType_of_mem_declarations {schema : Schema} (hd : d ∈ e.declarations schema) :
    d.isType = true := by
  unfold declarations at hd
  split at hd <;> simp only [mem_append, mem_cons, not_mem_nil, or_false] at hd
  · rcases hd with ((rfl | rfl) | rfl | rfl | rfl) | rfl <;> rfl
  · rcases hd with (rfl | rfl) | rfl <;> rfl

end Entity

theorem RouteSet.exists_of_mem_namespaces {s : RouteSet} (hd : d ∈ s.namespaces) :
    d.isType = false ∧ ∃ r ∈ s.routes, d.name = s.namespaceName r.owner := by
  obtain ⟨owner, howner, hd⟩ := mem_filterMap.1 hd
  obtain ⟨r, hr, rfl⟩ := RouteSet.mem_owners_iff.1 howner
  unfold RouteSet.ownerNamespace? at hd
  split at hd
  · cases hd
  · obtain rfl := Option.some.inj hd
    exact ⟨rfl, r, hr, rfl⟩

theorem typeNames_typesModule (schema : Schema) (routes : RouteSet)
    (fingerprint : String) :
    (typesModule schema routes fingerprint).typeNames
      = schema.all.flatMap fun e => ("" :: e.derivedEndings).map (e.typeName ++ ·) := by
  have hentities : (schema.all.flatMap (·.declarations schema)).filter Declaration.isType
      = schema.all.flatMap (·.declarations schema) := by
    refine filter_eq_self.2 fun d hd => ?_
    obtain ⟨e, -, hd⟩ := mem_flatMap.1 hd
    exact e.isType_of_mem_declarations hd
  have hnamespaces : routes.namespaces.filter Declaration.isType = [] :=
    filter_eq_nil_iff.2 fun d hd => by simp [(RouteSet.exists_of_mem_namespaces hd).1]
  rw [Module.typeNames, declarations_typesModule, typeDeclarations, filter_append,
    hentities, hnamespaces, append_nil, map_flatMap]
  simp only [Entity.names_declarations]

/-- The type names of a schema keep its declarations apart. -/
structure Schema.TypesApart (s : Schema) : Prop where
  shared : ∀ e ∈ s.all, e.typeName ∉ SharedTypes.names
  /-- No entity is called like a declaration made for another one. -/
  derived : ∀ e ∈ s.all, ∀ f ∈ s.all, ∀ ending ∈ f.derivedEndings,
    e.typeName ≠ f.typeName ++ ending
  /-- The populations of the one are not called like the payload of the
  other. -/
  populated : ∀ e ∈ s.all, ∀ f ∈ s.all, e.isPopulatable = true → f.isPopulatable = true →
    e.typeName ≠ f.typeName ++ "With"

/-- Besides the empty ending, only one ending stands at the end of
another. -/
theorem of_ending_eq_append (ha : a ∈ nameEndings) (hb : b ∈ nameEndings)
    (hz : z ≠ "") (h : b = z ++ a) :
    a = "" ∧ z = b ∨ a = "Populate" ∧ b = "WithPopulate" ∧ z = "With" := by
  have hendings : ∀ a ∈ nameEndings, ∀ b ∈ nameEndings, a.toList <:+ b.toList →
      a = "" ∨ b = "" ++ a ∨ a = "Populate" ∧ b = "With" ++ a := by decide
  rcases hendings a ha b hb (h ▸ suffix_append z a) with rfl | hsame | ⟨rfl, hb'⟩
  · exact .inl ⟨rfl, by rw [h, String.append_empty]⟩
  · exact absurd ((String.append_left_inj a).1 (h.symm.trans hsame)) hz
  · exact .inr ⟨rfl, hb', (String.append_left_inj _).1 (h.symm.trans hb')⟩

/-- No shared name is made of a stem and an ending. -/
theorem append_mem_sharedNames (hending : ending ∈ nameEndings)
    (h : stem ++ ending ∈ SharedTypes.names) : ending = "" := by
  have hendings : ∀ name ∈ SharedTypes.names, ∀ ending ∈ nameEndings,
      ending.toList <:+ name.toList → ending = "" := by
    decide
  exact hendings _ h ending hending (suffix_append stem ending)

theorem Entity.mem_derivedEndings_iff (e : Entity)
    (h : ending = "Populate" ∨ ending = "WithPopulate") :
    ending ∈ "" :: e.derivedEndings ↔ e.isPopulatable = true := by
  unfold derivedEndings
  cases e.isPopulatable with
  | false => rcases h with rfl | rfl <;> decide
  | true => rcases h with rfl | rfl <;> decide

theorem nodup_typeNames_iff (schema : Schema) (routes : RouteSet) (fingerprint : String)
    (h : (schema.all.map Entity.typeName).Nodup) :
    ((typesModule schema routes fingerprint).typeNames ++ SharedTypes.names).Nodup
      ↔ schema.TypesApart := by
  rw [nodup_append', typeNames_typesModule,
    nodup_names_iff h fun e _ => e.nodup_derivedEndings]
  constructor
  · rintro ⟨hnames, -, hdisjoint⟩
    refine ⟨fun e he hshared => ?_, fun e he f hf ending hending => ?_,
      fun e he f hf hpe hpf => ?_⟩
    · refine hdisjoint (mem_flatMap.2 ⟨e, he, ?_⟩) hshared
      exact mem_map.2 ⟨"", mem_cons_self, String.append_empty⟩
    · have hne : ending ≠ "" :=
        fun heq => (nodup_cons.1 f.nodup_derivedEndings).1 (heq ▸ hending)
      exact hnames e he f hf "" mem_cons_self ending
        (mem_cons_of_mem _ hending) ending hne
        String.append_empty.symm
    · refine hnames e he f hf "Populate"
        ((e.mem_derivedEndings_iff (.inl rfl)).2 hpe) "WithPopulate"
        ((f.mem_derivedEndings_iff (.inr rfl)).2 hpf) "With" ?_ ?_
      · decide
      · decide
  · intro hapart
    refine ⟨fun e he f hf a ha b hb z hz hb' => ?_,
      by decide, fun name hname hshared => ?_⟩
    · rcases of_ending_eq_append (e.derivedEndings_subset ha)
        (f.derivedEndings_subset hb) hz hb' with
        ⟨-, rfl⟩ | ⟨rfl, rfl, rfl⟩
      · exact hapart.derived e he f hf z (mem_of_ne_of_mem hz hb)
      · exact hapart.populated e he f hf ((e.mem_derivedEndings_iff (.inl rfl)).1 ha)
          ((f.mem_derivedEndings_iff (.inr rfl)).1 hb)
    · obtain ⟨e, he, hname⟩ := mem_flatMap.1 hname
      obtain ⟨ending, hending, rfl⟩ := mem_map.1 hname
      obtain rfl := append_mem_sharedNames (e.derivedEndings_subset hending) hshared
      exact hapart.shared e he (by simpa using hshared)

/-! ## The client module -/

/-- The names that the transport of a client exports. -/
def Transport.names : List String :=
  ["ClientConfig", "ApiError", "buildQuery", "BaseAPI"]

example :
    [Transport.configType, Transport.errorClass, Transport.queryFunction,
      Transport.baseClass].map List.head?
    = [some "export interface ClientConfig \x7b",
      some "export class ApiError extends Error \x7b",
      some "export function buildQuery(params?: object): string \x7b",
        some "export abstract class BaseAPI \x7b"] := by
  rfl

namespace TypeScript

def Module.functionNames (m : Module) : List String :=
  m.items.filterMap fun
    | .functionDef f => some f.name
    | .raw _ | .declaration _ | .classDef _ => none

end TypeScript

/-- The names in the flat space of a client module. -/
def clientScope (client : Module) : List String :=
  client.imported ++ Transport.names ++ client.classes.map Class.name
    ++ client.functionNames

namespace Entity

variable (e : Entity) (routes : RouteSet)

/-- What the classes of an entity add to its type name. -/
def classEndings : List String :=
  "API" :: if (e.extensionClass? routes).isSome then ["ExtendedAPI"] else []

theorem names_classes :
    (e.classes routes).map Class.name
      = (e.classEndings routes).map (e.typeName ++ ·) := by
  unfold classes classEndings
  cases hclass : e.extensionClass? routes with
  | none => rfl
  | some c =>
    obtain rfl := eq_of_extensionClass? hclass
    rfl

theorem classEndings_subset : e.classEndings routes ⊆ ["API", "ExtendedAPI"] := by
  unfold classEndings
  split <;> decide

theorem nodup_classEndings : (e.classEndings routes).Nodup := by
  unfold classEndings
  split <;> decide

theorem isSome_of_mem_classEndings (h : "ExtendedAPI" ∈ e.classEndings routes) :
    (e.extensionClass? routes).isSome = true := by
  unfold classEndings at h
  split at h
  · assumption
  · exact absurd h (by decide)

/-- The standard class of an entity refers to its base type, whatever its
kind. -/
theorem typeName_mem_names : e.typeName ∈ (e.standardClass routes).names := by
  have hfind : ∃ m ∈ e.standardMethods, e.typeName ∈ (ClassMember.method m).names := by
    unfold standardMethods
    split
    · refine ⟨_, mem_cons_self, mem_append_right _ ?_⟩
      exact (mem_cons_of_mem _ mem_cons_self : e.typeName
        ∈ ["SingleResponse", e.typeName])
    all_goals
      refine ⟨_, mem_cons_self, mem_append_right _ ?_⟩
      exact (mem_cons_of_mem _ mem_cons_self : e.typeName ∈ ["ListResponse", e.typeName])
  obtain ⟨m, hm, hname⟩ := hfind
  refine mem_append_right _ (mem_flatMap.2 ⟨.method m, ?_, hname⟩)
  exact mem_cons_of_mem _ (mem_map_of_mem hm)

end Entity

section Client

variable (schema : Schema) (routes : RouteSet)

/-- The names of a client that do not depend on the schema. -/
def fixedNames : List String :=
  Transport.names ++ [rootName, createFunction.name]

/-- The names that a client declares itself. -/
def ownNames : List String :=
  (clientClasses schema routes).map Class.name ++ fixedNames

/-- A class or function of the client refers to a name, or to something
inside it. -/
def RefersTo (name : String) : Prop :=
  ∃ item ∈ clientItems schema routes, ∃ n ∈ item.names, firstSegment n = name

/-- The type names and routes of a client keep the names of its module
apart. -/
structure ClientApart : Prop where
  /-- No class is called like the one they all extend. -/
  base : ∀ e ∈ schema.entities, e.typeName ≠ "Base"
  standalone : ∀ owner ∈ routes.standaloneOwners schema,
    routes.namespaceName owner ≠ "Base"
  extended : ∀ e ∈ schema.entities, ∀ f ∈ schema.entities,
    (f.extensionClass? routes).isSome = true →
    e.typeName ≠ f.typeName ++ "Extended"
  /-- The types of entities are imported. -/
  entity : ∀ e ∈ schema.entities, e.typeName ∉ ownNames schema routes
  /-- A component or a namespace is imported if the client refers to
  something of that name. -/
  imported : ∀ name ∈ schema.components.map Entity.typeName
    ++ routes.namespaces.map Declaration.name,
    RefersTo schema routes name → name ∉ ownNames schema routes

theorem clientScope_perm (types : Module) (settings : Settings) (fingerprint : String) :
    (clientScope (clientModule schema routes types settings fingerprint)).Perm
      (importedNames (clientItems schema routes) (exportedNames types)
        ++ ownNames schema routes) := by
  have himported : (clientModule schema routes types settings fingerprint).imported
      = importedNames (clientItems schema routes) (exportedNames types) := append_nil _
  have hfunctions :
      (clientModule schema routes types settings fingerprint).functionNames
        = [createFunction.name] := by
    simp [Module.functionNames, clientModule, clientItems, filterMap_append]
  have hscope : clientScope (clientModule schema routes types settings fingerprint)
      = importedNames (clientItems schema routes) (exportedNames types)
        ++ (Transport.names ++ (clientClasses schema routes).map Class.name
          ++ [rootName, createFunction.name]) := by
    rw [clientScope, himported, hfunctions, classes_clientModule, map_append]
    simp only [append_assoc]
    rfl
  rw [hscope, ownNames, fixedNames, ← append_assoc (List.map _ _)]
  exact (perm_append_comm.append_right _).append_left _

variable {schema routes}

/-! ### Classes -/

theorem names_clientClasses :
    (clientClasses schema routes).map Class.name
      = (schema.entities.flatMap fun e => (e.classEndings routes).map (e.typeName ++ ·))
        ++ (routes.standaloneOwners schema).map routes.className := by
  rw [clientClasses, map_append, map_flatMap, map_map]
  simp only [Entity.names_classes]
  rfl

/-- An owner gets a class only if its name is not taken. -/
theorem disjoint_standaloneOwners :
    (schema.entities.flatMap fun e =>
      (e.classEndings routes).map (e.typeName ++ ·)).Disjoint
      ((routes.standaloneOwners schema).map routes.className) := by
  intro name hname hclass
  obtain ⟨owner, howner, rfl⟩ := mem_map.1 hclass
  have hfree := (mem_filter.1 (mem_of_mem_distinctBy howner)).2
  simp only [Bool.and_eq_true, Bool.not_eq_true', contains_eq_mem,
    decide_eq_false_iff_not] at hfree
  refine hfree.2 ?_
  rw [map_flatMap]
  simpa only [Entity.names_classes] using hname

theorem of_classEnding_eq_append (ha : a ∈ ["API", "ExtendedAPI"])
    (hb : b ∈ ["API", "ExtendedAPI"]) (hz : z ≠ "") (h : b = z ++ a) :
    b = "ExtendedAPI" ∧ z = "Extended" := by
  have hendings : ∀ a ∈ ["API", "ExtendedAPI"], ∀ b ∈ ["API", "ExtendedAPI"],
      a.toList <:+ b.toList →
      b = "" ++ a ∨ b = "ExtendedAPI" ∧ b = "Extended" ++ a := by decide
  rcases hendings a ha b hb (h ▸ suffix_append z a) with hsame | ⟨hb', hsplit⟩
  · exact absurd ((String.append_left_inj a).1 (h.symm.trans hsame)) hz
  · exact ⟨hb', (String.append_left_inj a).1 (h.symm.trans hsplit)⟩

theorem nodup_clientClasses_iff (h : (schema.entities.map Entity.typeName).Nodup) :
    ((clientClasses schema routes).map Class.name).Nodup
      ↔ ∀ e ∈ schema.entities, ∀ f ∈ schema.entities,
        (f.extensionClass? routes).isSome = true →
        e.typeName ≠ f.typeName ++ "Extended" := by
  have howners : ((routes.standaloneOwners schema).map routes.className).Nodup :=
    nodup_map_distinctBy _ _
  rw [names_clientClasses, nodup_append',
    nodup_names_iff h fun e _ => e.nodup_classEndings routes]
  constructor
  · rintro ⟨hnames, -, -⟩ e he f hf hextension
    refine hnames e he f hf "API" mem_cons_self "ExtendedAPI" ?_ "Extended"
      (by decide) (by decide)
    simp [Entity.classEndings, hextension]
  · intro hapart
    refine ⟨fun e he f hf a ha b hb z hz hb' => ?_, howners, disjoint_standaloneOwners⟩
    obtain ⟨rfl, rfl⟩ :=
      of_classEnding_eq_append (e.classEndings_subset routes ha)
        (f.classEndings_subset routes hb) hz hb'
    exact hapart e he f hf (f.isSome_of_mem_classEndings routes hb)

theorem base_mem_clientClasses_iff :
    "BaseAPI" ∈ (clientClasses schema routes).map Class.name
      ↔ (∃ e ∈ schema.entities, e.typeName = "Base")
        ∨ ∃ owner ∈ routes.standaloneOwners schema,
          routes.namespaceName owner = "Base" := by
  have hstem : ∀ stem : String, stem ++ "API" = "BaseAPI" ↔ stem = "Base" :=
    fun stem => (String.append_left_inj "API" : stem ++ "API" = "Base" ++ "API" ↔ _)
  rw [names_clientClasses, mem_append, mem_flatMap, mem_map]
  refine or_congr ⟨?_, ?_⟩ ?_
  · rintro ⟨e, he, hname⟩
    obtain ⟨ending, hending, hname⟩ := mem_map.1 hname
    have hendings : ∀ ending ∈ ["API", "ExtendedAPI"],
        ending.toList <:+ "BaseAPI".toList → ending = "API" := by decide
    obtain rfl := hendings ending (e.classEndings_subset routes hending)
      (hname ▸ suffix_append e.typeName ending)
    exact ⟨e, he, (hstem _).1 hname⟩
  · rintro ⟨e, he, hname⟩
    exact ⟨e, he, mem_map.2 ⟨"API", mem_cons_self, (hstem _).2 hname⟩⟩
  · exact exists_congr fun owner => and_congr_right fun _ => hstem _

theorem suffix_of_mem_clientClasses
    (h : name ∈ (clientClasses schema routes).map Class.name) :
    "API".toList <:+ name.toList := by
  obtain ⟨c, hc, rfl⟩ := mem_map.1 h
  obtain ⟨stem, ending, hname, hending, -⟩ := exists_stem hc
  have hendings : ∀ ending ∈ ["API", "ExtendedAPI"],
      "API".toList <:+ ending.toList := by decide
  rw [hname]
  exact (hendings ending hending).trans (suffix_append stem ending)

theorem nodup_ownNames_iff (h : (schema.entities.map Entity.typeName).Nodup) :
    (ownNames schema routes).Nodup
      ↔ (∀ e ∈ schema.entities, ∀ f ∈ schema.entities,
        (f.extensionClass? routes).isSome = true →
          e.typeName ≠ f.typeName ++ "Extended")
        ∧ (∀ e ∈ schema.entities, e.typeName ≠ "Base")
        ∧ ∀ owner ∈ routes.standaloneOwners schema,
          routes.namespaceName owner ≠ "Base" := by
  have hfixed : ∀ name ∈ fixedNames, "API".toList <:+ name.toList →
      name = "BaseAPI" := by decide
  have hdisjoint : ((clientClasses schema routes).map Class.name).Disjoint fixedNames
      ↔ "BaseAPI" ∉ (clientClasses schema routes).map Class.name := by
    constructor
    · intro hdisjoint hbase
      exact hdisjoint hbase (by decide)
    · intro hbase name hname hmem
      exact hbase (hfixed name hmem (suffix_of_mem_clientClasses hname) ▸ hname)
  rw [ownNames, nodup_append', nodup_clientClasses_iff h, hdisjoint,
    base_mem_clientClasses_iff]
  simp only [not_or, not_exists, not_and]
  exact and_congr_right fun _ => and_iff_right (by decide)

/-! ### Imports -/

/-- The names of a client end in `API`, or they are fixed. -/
theorem of_mem_ownNames (h : name ∈ ownNames schema routes) :
    "API".toList <:+ name.toList ∨ name ∈ fixedNames :=
  (mem_append.1 h).imp_left suffix_of_mem_clientClasses

theorem ending_eq_of_mem_ownNames (hending : ending ∈ nameEndings)
    (h : stem ++ ending ∈ ownNames schema routes) : ending = "" := by
  have hfixed : ∀ name ∈ fixedNames, ∀ ending ∈ nameEndings,
      ending.toList <:+ name.toList → ending = "" := by decide
  have hclass : ∀ ending ∈ nameEndings,
      "API".toList <:+ ending.toList ∨ ending.toList <:+ "API".toList → ending = "" := by
    decide
  rcases of_mem_ownNames h with hapi | hmem
  · exact hclass ending hending
      (suffix_or_suffix_of_suffix hapi (suffix_append stem ending))
  · exact hfixed _ hmem ending hending (suffix_append stem ending)

theorem sharedName_notMem_ownNames (hname : name ∈ SharedTypes.names) :
    name ∉ ownNames schema routes := by
  have hshared : ∀ name ∈ SharedTypes.names,
      ¬"API".toList <:+ name.toList ∧ name ∉ fixedNames := by
    decide
  exact fun h => (of_mem_ownNames h).elim (hshared name hname).1 (hshared name hname).2

variable (fingerprint : String)

theorem mem_exportedNames_iff :
    name ∈ exportedNames (typesModule schema routes fingerprint)
      ↔ (∃ e ∈ schema.all, ∃ ending ∈ "" :: e.derivedEndings, e.typeName ++ ending = name)
        ∨ name ∈ routes.namespaces.map Declaration.name ∨ name ∈ SharedTypes.names := by
  rw [exportedNames, declarations_typesModule, typeDeclarations, map_append,
    map_flatMap, mem_append, mem_append, mem_flatMap, or_assoc]
  simp only [Entity.names_declarations, mem_map]

theorem typeName_mem_exportedNames {e : Entity} (he : e ∈ schema.all) :
    e.typeName ∈ exportedNames (typesModule schema routes fingerprint) :=
  (mem_exportedNames_iff fingerprint).2
    (.inl ⟨e, he, "", mem_cons_self, String.append_empty⟩)

theorem refersTo_typeName (htypes : ∀ e ∈ schema.entities, '.' ∉ e.typeName.toList)
    {e : Entity} (he : e ∈ schema.entities) :
    RefersTo schema routes e.typeName := by
  have hclass : e.standardClass routes ∈ clientClasses schema routes :=
    mem_clientClasses he mem_cons_self
  refine ⟨.classDef (e.standardClass routes), ?_, e.typeName, e.typeName_mem_names routes,
    firstSegment_of_notMem (htypes e he)⟩
  exact mem_append_left _ (mem_map_of_mem hclass)

/-- Of what the types module exports, only a type name or a namespace can
also be a name of the client. -/
theorem disjoint_importedNames_iff
    (htypes : ∀ e ∈ schema.entities, '.' ∉ e.typeName.toList) :
    (importedNames (clientItems schema routes)
      (exportedNames (typesModule schema routes fingerprint))).Disjoint
        (ownNames schema routes)
      ↔ (∀ e ∈ schema.entities, e.typeName ∉ ownNames schema routes)
        ∧ ∀ name ∈ schema.components.map Entity.typeName
          ++ routes.namespaces.map Declaration.name,
          RefersTo schema routes name → name ∉ ownNames schema routes := by
  constructor
  · intro hdisjoint
    refine ⟨fun e he => ?_, fun name hname hrefers => ?_⟩
    · refine hdisjoint (mem_importedNames.2 ⟨refersTo_typeName htypes he, ?_⟩)
      exact typeName_mem_exportedNames fingerprint (mem_append_right _ he)
    · refine hdisjoint (mem_importedNames.2 ⟨hrefers, ?_⟩)
      rcases mem_append.1 hname with hname | hname
      · obtain ⟨c, hc, rfl⟩ := mem_map.1 hname
        exact typeName_mem_exportedNames fingerprint (mem_append_left _ hc)
      · exact (mem_exportedNames_iff fingerprint).2 (.inr (.inl hname))
  · rintro ⟨hentity, himport⟩ name himported hown
    obtain ⟨hrefers, hexported⟩ := mem_importedNames.1 himported
    rcases (mem_exportedNames_iff fingerprint).1 hexported with
      ⟨e, he, ending, hending, rfl⟩ | hspace | hshared
    · obtain rfl := ending_eq_of_mem_ownNames (e.derivedEndings_subset hending) hown
      rw [String.append_empty] at hown hrefers
      rcases mem_append.1 he with he | he
      · exact himport _ (mem_append_left _ (mem_map_of_mem he)) hrefers hown
      · exact hentity e he hown
    · exact himport name (mem_append_right _ hspace) hrefers hown
    · exact sharedName_notMem_ownNames hshared hown

theorem nodup_clientScope_iff (settings : Settings)
    (h : (schema.all.map Entity.typeName).Nodup)
    (htypes : ∀ e ∈ schema.entities, '.' ∉ e.typeName.toList) :
    (clientScope (clientModule schema routes
      (typesModule schema routes fingerprint) settings fingerprint)).Nodup
      ↔ ClientApart schema routes := by
  have hentities : (schema.entities.map Entity.typeName).Nodup := by
    rw [Schema.all, map_append] at h
    exact (nodup_append'.1 h).2.1
  have himported := (importedNames_increasing (clientItems schema routes)
    (exportedNames (typesModule schema routes fingerprint))).imp fun hlt =>
      String.ne_of_lt hlt
  rw [(clientScope_perm schema routes _ settings fingerprint).nodup_iff, nodup_append',
    nodup_ownNames_iff hentities, disjoint_importedNames_iff fingerprint htypes]
  constructor
  · rintro ⟨-, ⟨hextended, hbase, hstandalone⟩, hentity, himport⟩
    exact ⟨hbase, hstandalone, hextended, hentity, himport⟩
  · rintro ⟨hbase, hstandalone, hextended, hentity, himport⟩
    exact ⟨himported, ⟨hextended, hbase, hstandalone⟩, hentity, himport⟩

end Client

/-! ## Plain names -/

/-- The name is nobody else's, and no ending stands at its end. -/
def isPlainName (name : String) : Bool :=
  !("Base" :: SharedTypes.names ++ fixedNames).contains name
    && (nameEndings.tail ++ ["With", "Extended", "API"]).all fun ending =>
      !ending.toList.isSuffixOf name.toList

theorem notMem_of_isPlainName (h : isPlainName name = true) :
    name ∉ "Base" :: SharedTypes.names ++ fixedNames := by
  simp only [isPlainName, Bool.and_eq_true, Bool.not_eq_true', contains_eq_mem,
    decide_eq_false_iff_not] at h
  exact h.1

theorem ne_append_of_isPlainName (h : isPlainName name = true)
    (hending : ending ∈ nameEndings.tail ++ ["With", "Extended", "API"])
    (stem : String) :
    name ≠ stem ++ ending := by
  rintro rfl
  have hsuffix : ending.toList.isSuffixOf (stem ++ ending).toList = true :=
    isSuffixOf_iff_suffix.2 (suffix_append stem ending)
  rw [isPlainName, Bool.and_eq_true, all_eq_true] at h
  have hnone := h.2 ending hending
  rw [hsuffix] at hnone
  cases hnone

theorem isPlainName_notMem_ownNames {schema : Schema} {routes : RouteSet}
    (h : isPlainName name = true) : name ∉ ownNames schema routes := by
  intro hown
  rcases of_mem_ownNames hown with ⟨cs, hcs⟩ | hfixed
  · have happend : name = String.ofList cs ++ "API" := by
      rw [← String.toList_inj, String.toList_append, String.toList_ofList, hcs]
    exact ne_append_of_isPlainName h (by decide) _ happend
  · exact notMem_of_isPlainName h (mem_append_right _ hfixed)

section Plain

variable {schema : Schema} (htypes : ∀ e ∈ schema.all, isPlainName e.typeName = true)

include htypes

theorem Schema.typesApart_of_isPlainName : schema.TypesApart where
  shared e he hshared :=
    notMem_of_isPlainName (htypes e he) (mem_append_left _ (mem_cons_of_mem _ hshared))
  derived e he f _ ending hending := by
    have hne : ending ≠ "" :=
      fun heq => (nodup_cons.1 f.nodup_derivedEndings).1 (heq ▸ hending)
    have hmem : ending ∈ nameEndings :=
      f.derivedEndings_subset (mem_cons_of_mem _ hending)
    exact ne_append_of_isPlainName (htypes e he)
      (mem_append_left _ (mem_of_ne_of_mem hne hmem)) _
  populated e he f _ _ _ := ne_append_of_isPlainName (htypes e he) (by decide) _

theorem clientApart_of_isPlainName {routes : RouteSet}
    (hroutes : ∀ r ∈ routes.routes, isPlainName (routes.namespaceName r.owner) = true) :
    ClientApart schema routes where
  base e he heq :=
    notMem_of_isPlainName (htypes e (mem_append_right _ he)) (heq ▸ mem_cons_self)
  standalone owner howner heq := by
    obtain ⟨r, hr, rfl⟩ :=
      RouteSet.mem_owners_iff.1 (mem_filter.1 (mem_of_mem_distinctBy howner)).1
    exact notMem_of_isPlainName (hroutes r hr) (heq ▸ mem_cons_self)
  extended e he f _ _ :=
    ne_append_of_isPlainName (htypes e (mem_append_right _ he)) (by decide) _
  entity e he := isPlainName_notMem_ownNames (htypes e (mem_append_right _ he))
  imported name hname _ := by
    rcases mem_append.1 hname with hname | hname
    · obtain ⟨c, hc, rfl⟩ := mem_map.1 hname
      exact isPlainName_notMem_ownNames (htypes c (mem_append_left _ hc))
    · obtain ⟨d, hd, rfl⟩ := mem_map.1 hname
      obtain ⟨-, r, hr, hspace⟩ := RouteSet.exists_of_mem_namespaces hd
      exact hspace ▸ isPlainName_notMem_ownNames (hroutes r hr)

end Plain

/-! ## Both modules -/

/-- **When no name is declared twice.** If the entities and components of an
assembled schema have distinct type names, the types of its module and the
shared ones have distinct names exactly if the type names keep them apart,
and so for the names in its client. Plain type names and namespaces always
do. -/
theorem declared_names_nodup_iff (components entities : List DeclaredEntity)
    (filter : Filter) (routes : RouteSet) (settings : Settings) (fingerprint : String)
    (h : ((Schema.assemble components entities filter).all.map Entity.typeName).Nodup) :
    let schema := Schema.assemble components entities filter
    let types := typesModule schema routes fingerprint
    ((types.typeNames ++ SharedTypes.names).Nodup ↔ schema.TypesApart)
      ∧ ((clientScope (clientModule schema routes types settings fingerprint)).Nodup
        ↔ ClientApart schema routes)
      ∧ ((∀ e ∈ schema.all, isPlainName e.typeName = true) →
        (∀ r ∈ routes.routes, isPlainName (routes.namespaceName r.owner) = true) →
          schema.TypesApart ∧ ClientApart schema routes) := by
  intro schema types
  have htypes : ∀ e ∈ schema.entities, '.' ∉ e.typeName.toList := by
    intro e he
    obtain ⟨d, kind, rfl⟩ := Schema.exists_assemble_of_mem_all (mem_append_right _ he)
    exact notMem_typeName d.uid
  refine ⟨nodup_typeNames_iff schema routes fingerprint h,
    nodup_clientScope_iff fingerprint settings h htypes, ?_⟩
  intro hplain hroutes
  exact ⟨Schema.typesApart_of_isPlainName hplain,
    clientApart_of_isPlainName hplain hroutes⟩

/-- An extension of the articles, and an owner with a namespace and a class
of its own. -/
def libraryRoutes : List RouteDescriptor :=
  [{ method := "POST", path := "/articles/:id/publish", handler := "article.publish" },
    { method := "POST", path := "/chat/messages", handler := "chat.sendMessage",
      types := some { body := "string" } }]

theorem declared_names_nodup_library :
    ((Schema.assemble [] [declaredArticle, declaredAuthor] {}).all.map
      Entity.typeName).Nodup
      ∧ ((typesModule library (.ofDescriptors libraryRoutes) "").typeNames
        ++ SharedTypes.names).Nodup
      ∧ (clientScope (clientModule library (.ofDescriptors libraryRoutes)
          (typesModule library (.ofDescriptors libraryRoutes) "") {} "")).Nodup := by
  have hnames :
      ((Schema.assemble [] [declaredArticle, declaredAuthor] {}).all.map
        Entity.typeName).Nodup := by
    rw [assemble_library]
    decide
  have hiff := declared_names_nodup_iff [] [declaredArticle, declaredAuthor] {}
    (.ofDescriptors libraryRoutes) {} ""
    hnames
  simp only [assemble_library] at hiff
  obtain ⟨htypes, hclient, hplain⟩ := hiff
  have hapart := hplain (by decide +kernel) (by decide +kernel)
  exact ⟨hnames, htypes.2 hapart.1, hclient.2 hapart.2⟩

def declaredItem : DeclaredEntity :=
  { uid := "api::item.item", kind := .collection, fields := [] }

/-- An entity whose type name is the name of the write shape of an item. -/
def declaredItemInput : DeclaredEntity :=
  { uid := "api::item-input.item-input", kind := .collection, fields := [] }

/-- A controller whose class would be the one that it extends. -/
def baseRoutes : RouteSet :=
  .ofDescriptors [{ method := "GET", path := "/base", handler := "base.list" }]

theorem typeNames_items :
    (Schema.assemble [] [declaredItemInput, declaredItem] {}).all.map Entity.typeName
    = ["ItemInput", "Item"] := by
  simp only [Schema.assemble, sortByKey_eq_insertionSort]
  decide +kernel

/-- A class that extends itself, and an entity whose type is the write shape
of another one. -/
theorem declarations_clash :
    ((Schema.assemble [] [declaredItem] {}).all.map Entity.typeName).Nodup
      ∧ (clientClasses (Schema.assemble [] [declaredItem] {}) baseRoutes).map Class.name
        = ["ItemAPI", "BaseAPI"]
      ∧ (∀ types settings fingerprint, ¬ (clientScope
          (clientModule (Schema.assemble [] [declaredItem] {}) baseRoutes types settings
            fingerprint)).Nodup)
      ∧ ((Schema.assemble [] [declaredItemInput, declaredItem] {}).all.map
        Entity.typeName).Nodup
      ∧ ∀ routes fingerprint,
        ¬ ((typesModule (Schema.assemble [] [declaredItemInput, declaredItem] {}) routes
          fingerprint).typeNames ++ SharedTypes.names).Nodup := by
  have hclasses :
      (clientClasses (Schema.assemble [] [declaredItem] {}) baseRoutes).map Class.name
      = ["ItemAPI", "BaseAPI"] := by
    decide +kernel
  have hitems :
      ((Schema.assemble [] [declaredItemInput, declaredItem] {}).all.map
        Entity.typeName).Nodup := by
    rw [typeNames_items]
    decide
  refine ⟨by
    decide +kernel, hclasses, fun types settings fingerprint hnodup => ?_, hitems,
    fun routes fingerprint hnodup => ?_⟩
  · rw [(clientScope_perm _ _ types settings fingerprint).nodup_iff, ownNames,
      hclasses] at hnodup
    exact absurd (nodup_append'.1 hnodup).2.1 (by decide)
  · obtain ⟨e, he, hename⟩ := mem_map.1 (typeNames_items ▸ mem_cons_self)
    obtain ⟨f, hf, hfname⟩ :=
      mem_map.1 (typeNames_items ▸ mem_cons_of_mem _ mem_cons_self)
    refine ((nodup_typeNames_iff _ routes fingerprint hitems).1 hnodup).derived e he f
      hf "Input" mem_cons_self ?_
    rw [hename, hfname]
    rfl

end TypedContent

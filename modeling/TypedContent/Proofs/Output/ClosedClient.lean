import Mathlib.Data.List.TakeWhile
import TypedContent.Proofs.Lists
import TypedContent.Proofs.Naming.Separators
import TypedContent.Proofs.Output.ClientNames
import TypedContent.Proofs.Output.ClosedTypes

/-!
# The client module is closed against the types module

A client module refers to types of the types module, to classes of its own
and to what its transport declares. The two modules are written
independently of each other: the client takes an owner's routes method by
method, the types module handler by handler. `ClosedAgainst` lists what has
to fit, and `client_closed` says that it does for every assembled schema and
all routes with handlers that name their targets.

Only qualified names have a point, which is where they can be taken apart
again (`firstSegment_qualified`).
-/

namespace TypedContent

open List TypeScript

variable {slot : Slot}

/-! ## What has to fit -/

namespace TypeScript

/-- The properties of a class with their types. -/
def Class.properties (c : Class) : List (String × TypeExpr) :=
  c.members.filterMap fun
    | .property name type _ => some (name, type)
    | _ => none

/-- What the constructor of a class does. -/
def Class.constructorBody (c : Class) : List Statement :=
  c.members.flatMap fun
    | .constructor _ body => body
    | _ => []

/-- Whether a statement assigns the property of this name. -/
def Statement.assigns (name : String) : Statement → Bool
  | .raw code => ("this." ++ name ++ " = ").toList.isPrefixOf code.toList
  | _ => false

/-- The names a module imports. -/
def Module.imported (m : Module) : List String :=
  m.imports.flatMap Import.items

/-- The types a module has among the members of its namespaces. -/
def Module.HasMember (m : Module) (space member : String) : Prop :=
  ∃ (head : Head) (members : List Declaration),
    .scope head members ∈ m.declarations ∧ head.name = space
    ∧ ∃ d ∈ members, d.name = member ∧ d.aliased?.isSome = true

end TypeScript

/-- A client module that fits a types module. -/
structure ClosedAgainst (types client : Module) : Prop where
  /-- Every name leads to an import, a class or something that needs
  neither. -/
  inReach : ∀ item ∈ client.items, ∀ name ∈ item.names,
    firstSegment name ∈ client.imported
      ∨ firstSegment name ∈ client.classes.map Class.name
      ∨ firstSegment name ∈ ambientNames
  imported_exported : ∀ name ∈ client.imported, name ∈ exportedNames types
  imported_increasing : client.imported.Pairwise (· < ·)
  /-- A qualified name leads to a type in a namespace. -/
  qualified : ∀ item ∈ client.items, ∀ name ∈ item.names, '.' ∈ name.toList →
    ∃ member, name = firstSegment name ++ "." ++ member
      ∧ types.HasMember (firstSegment name) member
  /-- A class comes after the one it extends. -/
  bases : ∀ before c after, client.classes = before ++ c :: after → c.name ≠ rootName →
    ∃ base, c.base = some (.ref base) ∧ (base = "BaseAPI" ∨ base ∈ before.map Class.name)
  /-- There is one class that holds the others together, and it constructs
  each of its properties once. -/
  root : ∃ root, client.classes.filter (·.name = rootName) = [root]
    ∧ (root.properties.map Prod.fst).Nodup
    ∧ ∀ p ∈ root.properties, root.constructorBody.countP (Statement.assigns p.1) = 1
      ∧ ∃ c ∈ client.classes, p.2 = .ref c.name
        ∧ construction p.1 c.name ∈ root.constructorBody

/-! ## Points in names -/

theorem takeWhile_ne_append {separator : Char} {cs : List Char} (h : separator ∉ cs)
    (rest : List Char) :
    (cs ++ separator :: rest).takeWhile (fun c => decide (c ≠ separator)) = cs := by
  have hall : ∀ c ∈ cs, decide (c ≠ separator) = true :=
    fun c hc => decide_eq_true fun heq => h (heq ▸ hc)
  rw [takeWhile_append_of_pos hall, takeWhile_cons_of_neg (by simp), append_nil]

theorem firstSegment_of_notMem {name : String} (h : '.' ∉ name.toList) :
    firstSegment name = name := by
  have hall : ∀ c ∈ name.toList, decide (c ≠ '.') = true := by
    intro c hc
    exact decide_eq_true fun heq => h (heq ▸ hc)
  rw [firstSegment, takeWhile_eq_self_iff.2 hall, String.ofList_toList]

theorem firstSegment_qualified {space : String} (h : '.' ∉ space.toList)
    (member : String) :
    firstSegment (space ++ "." ++ member) = space := by
  have htext :
      (space ++ "." ++ member).toList = space.toList ++ '.' :: member.toList := by
    simp [String.toList_append]
  rw [firstSegment, htext, takeWhile_ne_append h, String.ofList_toList]

theorem notMem_typeName (uid : String) : '.' ∉ (Uid.typeName uid).toList := by
  unfold Uid.typeName
  split <;> rw [String.toList_ofList]
    <;> exact Naming.notMem_pascalCase (by decide) (by decide) _

theorem RouteSet.notMem_namespaceName (s : RouteSet) (owner : Owner) :
    '.' ∉ (s.namespaceName owner).toList := by
  unfold RouteSet.namespaceName controllerNamespace
  rw [String.toList_ofList]
  exact Naming.notMem_namespaceName (by decide) (by decide) _

namespace RouteSet

variable {s : RouteSet} {r r' : Route}

/-- Every handler names the controller and the action of its route. -/
def NamesTargets (s : RouteSet) : Prop :=
  ∀ r ∈ s.routes, r.handler = r.controller ++ "." ++ r.action

theorem namesTargets_ofDescriptors (ds : List RouteDescriptor) :
    (ofDescriptors ds).NamesTargets := by
  intro r hr
  obtain ⟨d, -, hroute⟩ := mem_filterMap.1 hr
  obtain ⟨target, -, rfl⟩ := Option.map_eq_some_iff.1 hroute
  rfl

/-- Routes of one owner and one handler have one action, so either of them
stands for the handler's types. -/
theorem action_eq (hs : s.NamesTargets) (hr : r ∈ s.routes) (hr' : r' ∈ s.routes)
    (howner : r.owner = r'.owner) (hhandler : r.handler = r'.handler) :
    r.action = r'.action := by
  have hcontroller : r.controller = r'.controller := congrArg Owner.controller howner
  rw [hs r hr, hs r' hr', hcontroller] at hhandler
  exact String.append_right_inj _ |>.1 hhandler

/-- The type of a route in a slot is among the types of its owner. -/
theorem mem_ownerAliases (hs : s.NamesTargets) (hr : r ∈ s.routes) {text : String}
    (htext : (s.typesOf? r.handler).bind (·.get slot) = some text) :
    .typeAlias { name := slot.aliasName r.action } (.raw text)
      ∈ s.ownerAliases r.owner := by
  obtain ⟨types, htypes, hget⟩ := Option.bind_eq_some_iff.1 htext
  have howned : r ∈ s.ownedBy r.owner := mem_filter.2 ⟨hr, decide_eq_true rfl⟩
  obtain ⟨r', hr', hhandler⟩ := exists_mem_distinctBy Route.handler howned
  obtain ⟨hmem, howner⟩ := mem_filter.1 (mem_of_mem_distinctBy hr')
  refine mem_flatMap.2 ⟨r', hr', ?_⟩
  rw [hhandler, htypes, action_eq hs hmem hr (of_decide_eq_true howner) hhandler]
  exact mem_filterMap.2 ⟨slot, by cases slot <;> decide, by rw [hget]; rfl⟩

/-- The owner of a route with a type has a namespace. -/
theorem scope_mem_namespaces (hs : s.NamesTargets) (hr : r ∈ s.routes) {text : String}
    (htext : (s.typesOf? r.handler).bind (·.get slot) = some text) :
    .scope { name := s.namespaceName r.owner } (s.ownerAliases r.owner)
      ∈ s.namespaces := by
  have halias := mem_ownerAliases hs hr htext
  have howners : r.owner ∈ s.owners := by
    obtain ⟨owner, howner, rfl⟩ :=
      exists_mem_distinctBy id (mem_map_of_mem (f := Route.owner) hr)
    exact mem_mergeSort.2 howner
  refine mem_filterMap.2 ⟨r.owner, howners, ?_⟩
  unfold ownerNamespace?
  split
  · rename_i hnil
    rw [hnil] at halias
    cases halias
  · rfl

end RouteSet

section Module

variable {c : TypeScript.Class} {e : Entity}

variable (schema : Schema) (routes : RouteSet) (settings : Settings)
  (fingerprint : String)

theorem classes_clientModule (types : Module) :
    (clientModule schema routes types settings fingerprint).classes
      = clientClasses schema routes ++ [rootClass (clientProperties schema routes)] := by
  have hread : ∀ cs : List TypeScript.Class,
      (cs.map Item.classDef).filterMap Item.class? = cs := by
    intro cs
    rw [filterMap_map]
    exact filterMap_some
  simp [Module.classes, clientModule, clientItems, filterMap_cons, Item.class?,
    filterMap_append, hread]

/-- What the client calls a declared type by, the types module declares. -/
theorem Route.hasMember (hroutes : routes.NamesTargets) {r : Route}
    (hr : r ∈ routes.routes) {type : TypeExpr}
    (h : r.declaredType? routes slot = some type) :
    (typesModule schema routes fingerprint).HasMember (routes.namespaceName r.owner)
      (slot.aliasName r.action) := by
  obtain ⟨text, htext, -⟩ := Option.map_eq_some_iff.1 h
  refine ⟨{ name := routes.namespaceName r.owner }, _, ?_, rfl, _,
    routes.mem_ownerAliases hroutes hr htext, rfl, rfl⟩
  rw [declarations_typesModule]
  exact mem_append_right _ (RouteSet.scope_mem_namespaces hroutes hr htext)

variable {schema routes}

/-! ## Where the names lead -/

/-- The name of every class ends in `API`, and starts with a type name or a
namespace. -/
theorem exists_stem (hc : c ∈ clientClasses schema routes) :
    ∃ stem ending, c.name = stem ++ ending ∧ ending ∈ ["API", "ExtendedAPI"]
      ∧ ((∃ e ∈ schema.entities, stem = e.typeName)
        ∨ ∃ owner, stem = routes.namespaceName owner) := by
  rcases mem_append.1 hc with hc | hc
  · obtain ⟨e, he, hc⟩ := mem_flatMap.1 hc
    rcases mem_cons.1 hc with rfl | hc
    · exact ⟨e.typeName, "API", rfl, by decide, .inl ⟨e, he, rfl⟩⟩
    · obtain rfl := Entity.eq_of_extensionClass? (Option.mem_toList.1 hc)
      exact ⟨e.typeName, "ExtendedAPI", rfl, by decide, .inl ⟨e, he, rfl⟩⟩
  · obtain ⟨owner, -, rfl⟩ := mem_map.1 hc
    exact ⟨routes.namespaceName owner, "API", rfl, by decide, .inr ⟨owner, rfl⟩⟩

theorem name_ne_rootName (hc : c ∈ clientClasses schema routes) : c.name ≠ rootName := by
  obtain ⟨stem, ending, hname, hending, -⟩ := exists_stem hc
  intro heq
  have hlast : ending.toList.getLast? = some 'I' ∧ ending.toList ≠ [] := by
    rcases mem_cons.1 hending with rfl | hending
    · decide
    · obtain rfl := mem_singleton.1 hending
      decide
  have hroot : (stem.toList ++ ending.toList).getLast? = some 't' := by
    rw [← String.toList_append, ← hname, heq]
    rfl
  rw [getLast?_append_of_ne_nil _ hlast.2, hlast.1] at hroot
  cases hroot

/-- What the declarations of an entity add to its type name. -/
def nameEndings : List String :=
  ["", "Input", "PopulateParam", "Populate", "WithPopulate", "Filters"]

theorem Entity.exists_declaration {name : String} (h : name ∈ e.clientNames) :
    name ∈ ambientNames ∨ name ∈ SharedTypes.names
      ∨ ∃ d ∈ e.declarations schema,
        d.name = name ∧ ∃ ending ∈ nameEndings, name = e.typeName ++ ending := by
  rcases mem_append.1 h with h | h
  · simp only [plainNames, mem_cons, not_mem_nil, or_false] at h
    rcases h with rfl | rfl | rfl | rfl | rfl | rfl | rfl | rfl | rfl | rfl
    · exact .inr (.inr ⟨e.baseInterface,
        by simp [declarations], rfl, "", by decide, by simp⟩)
    · exact .inr (.inr ⟨e.filtersInterface,
        by simp [declarations], rfl, "Filters", by decide, rfl⟩)
    · exact .inr (.inr ⟨e.inputInterface,
        by simp [declarations], rfl, "Input", by decide, rfl⟩)
    · exact .inl (by decide)
    · exact .inl (by decide)
    · exact .inl (by decide)
    · exact .inr (.inl (by decide))
    · exact .inr (.inl (by decide))
    · exact .inr (.inl (by decide))
    · exact .inl (by decide)
  · split at h
    · rename_i hpopulatable
      obtain ⟨hparam, hpopulate, hpayload⟩ :=
        @mem_declarations_populate schema e hpopulatable
      simp only [mem_cons, not_mem_nil, or_false] at h
      rcases h with rfl | rfl | rfl | rfl
      · exact .inl (by decide)
      · exact .inr (.inr ⟨_, hparam, rfl, "PopulateParam", by decide, rfl⟩)
      · exact .inr (.inr ⟨_, hpopulate, rfl, "Populate", by decide, rfl⟩)
      · exact .inr (.inr ⟨_, hpayload, rfl, "WithPopulate", by decide, rfl⟩)
    · cases h

section NoPoint

variable (htypes : ∀ e ∈ schema.entities, '.' ∉ e.typeName.toList)

include htypes

theorem notMem_className {name : String} (h : name ∈ classNames schema routes) :
    '.' ∉ name.toList := by
  rcases mem_append.1 h with h | h
  · obtain ⟨c, hc, rfl⟩ := mem_map.1 h
    obtain ⟨stem, ending, hname, hending, hstem⟩ := exists_stem hc
    have hnoPoint : '.' ∉ stem.toList := by
      rcases hstem with ⟨e, he, rfl⟩ | ⟨owner, rfl⟩
      · exact htypes e he
      · exact routes.notMem_namespaceName owner
    have hendings : ∀ ending ∈ ["API", "ExtendedAPI"], '.' ∉ ending.toList := by decide
    rw [hname, String.toList_append, mem_append, not_or]
    exact ⟨hnoPoint, hendings ending hending⟩
  · obtain rfl := mem_singleton.1 h
    decide

theorem notMem_clientNames (he : e ∈ schema.entities) {name : String}
    (h : name ∈ e.clientNames) :
    '.' ∉ name.toList := by
  have hfixed : ∀ name ∈ ambientNames ++ SharedTypes.names, '.' ∉ name.toList := by decide
  have hendings : ∀ ending ∈ nameEndings, '.' ∉ ending.toList := by decide
  rcases @Entity.exists_declaration e schema name h with h | h
    | ⟨-, -, -, ending, hending, rfl⟩
  · exact hfixed name (mem_append_left _ h)
  · exact hfixed name (mem_append_right _ h)
  · rw [String.toList_append, mem_append, not_or]
    exact ⟨htypes e he, hendings ending hending⟩

end NoPoint

theorem exported_of_clientNames (he : e ∈ schema.entities) {name : String}
    (h : name ∈ e.clientNames) :
    name ∈ ambientNames
      ∨ name ∈ exportedNames (typesModule schema routes fingerprint) := by
  rcases @Entity.exists_declaration e schema name h with h | h | ⟨d, hd, rfl, -⟩
  · exact .inl h
  · exact .inr (mem_append_right _ h)
  · refine .inr (mem_append_left _ (mem_map_of_mem ?_))
    rw [declarations_typesModule]
    exact mem_typeDeclarations routes (mem_append_right _ he) hd

theorem exported_of_hasMember {types : Module} {space member : String}
    (h : types.HasMember space member) :
    space ∈ exportedNames types := by
  obtain ⟨head, members, hscope, rfl, -⟩ := h
  exact mem_append_left _ (mem_map.2 ⟨_, hscope, rfl⟩)

section Mentioned

variable (hroutes : routes.NamesTargets)
  (htypes : ∀ e ∈ schema.entities, '.' ∉ e.typeName.toList)
  {name : String}
  (h : Mentioned schema routes name)

include hroutes htypes h

theorem Mentioned.inReach :
    firstSegment name ∈ exportedNames (typesModule schema routes fingerprint)
      ∨ firstSegment name ∈ classNames schema routes
        ∨ firstSegment name ∈ ambientNames := by
  cases h with
  | ambient h =>
    have hfixed : ∀ name ∈ ambientNames, '.' ∉ name.toList := by decide
    exact .inr (.inr ((firstSegment_of_notMem (hfixed name h)).symm ▸ h))
  | ofClass h =>
    exact .inr (.inl ((firstSegment_of_notMem (notMem_className htypes h)).symm ▸ h))
  | entity e he h =>
    rw [firstSegment_of_notMem (notMem_clientNames htypes he h)]
    rcases exported_of_clientNames fingerprint he h with h | h
    · exact .inr (.inr h)
    · exact .inl h
  | declared r hr slot h =>
    obtain rfl := TypeExpr.ref.inj (r.eq_ref_of_declaredType? routes h)
    rw [firstSegment_qualified (routes.notMem_namespaceName r.owner)]
    exact .inl (exported_of_hasMember
      (r.hasMember schema routes fingerprint hroutes hr h))

/-- A name with a point is one that a route's declared type is called by. -/
theorem Mentioned.qualified (hpoint : '.' ∈ name.toList) :
    ∃ member, name = firstSegment name ++ "." ++ member
      ∧ (typesModule schema routes fingerprint).HasMember (firstSegment name) member := by
  cases h with
  | ambient h =>
    have hfixed : ∀ name ∈ ambientNames, '.' ∉ name.toList := by decide
    exact absurd hpoint (hfixed name h)
  | ofClass h => exact absurd hpoint (notMem_className htypes h)
  | entity e he h => exact absurd hpoint (notMem_clientNames htypes he h)
  | declared r hr slot h =>
    obtain rfl := TypeExpr.ref.inj (r.eq_ref_of_declaredType? routes h)
    rw [firstSegment_qualified (routes.notMem_namespaceName r.owner)]
    exact ⟨slot.aliasName r.action, rfl,
      r.hasMember schema routes fingerprint hroutes hr h⟩

end Mentioned

/-! ## Imports -/

theorem mem_importedNames {items : List Item} {exported : List String} {name : String} :
    name ∈ importedNames items exported
      ↔ (∃ item ∈ items, ∃ n ∈ item.names, firstSegment n = name) ∧ name ∈ exported := by
  have hmem : name ∈ importedNames items exported
      ↔ name ∈ ((items.flatMap Item.names).map firstSegment).filter
        exported.contains := by
    rw [importedNames, (sortByKey_perm id _).mem_iff]
    constructor
    · exact mem_of_mem_distinctBy
    · intro h
      obtain ⟨n, hn, rfl⟩ := exists_mem_distinctBy id h
      exact hn
  simp only [hmem, mem_filter, mem_map, mem_flatMap, contains_iff_mem]
  constructor
  · rintro ⟨⟨n, ⟨item, hitem, hn⟩, rfl⟩, hexported⟩
    exact ⟨⟨item, hitem, n, hn, rfl⟩, hexported⟩
  · rintro ⟨⟨item, hitem, n, hn, rfl⟩, hexported⟩
    exact ⟨⟨n, ⟨item, hitem, hn⟩, rfl⟩, hexported⟩

/-- Sorting gives the order, and no name is kept twice. -/
theorem importedNames_increasing (items : List Item) (exported : List String) :
    (importedNames items exported).Pairwise (· < ·) := by
  have hnodup : (importedNames items exported).Nodup := by
    refine (sortByKey_perm id _).nodup_iff.2 ?_
    simpa using nodup_map_distinctBy id
      (((items.flatMap Item.names).map firstSegment).filter exported.contains)
  refine ((pairwise_sortByKey id _).and hnodup).imp ?_
  rintro a b ⟨hle, hne⟩
  exact lt_of_not_lt_of_ne (String.not_lt.2 hle) hne.symm

/-! ## Bases -/

/-- An entry of two lists in a row stands in the first one or in the
second. -/
theorem split_of_append_eq {α : Type} {xs ys before after : List α} {y : α}
    (h : xs ++ ys = before ++ y :: after) :
    (∃ rest, xs = before ++ y :: rest)
      ∨ ∃ start, before = xs ++ start ∧ ys = start ++ y :: after := by
  rcases append_eq_append_iff.1 h with ⟨between, hbefore, hrest⟩
    | ⟨between, hpiece, hrest⟩
  · exact .inr ⟨between, hbefore, hrest⟩
  · cases between with
    | nil => exact .inr ⟨[], by simpa using hpiece.symm, hrest.symm⟩
    | cons z between =>
      obtain ⟨rfl, -⟩ := List.cons.inj hrest
      exact .inl ⟨between, hpiece⟩

theorem split_of_flatMap_eq {α β : Type} {f : α → List β} {xs : List α}
    {before after : List β} {y : β} (h : xs.flatMap f = before ++ y :: after) :
    ∃ x ∈ xs, ∃ start rest, f x = start ++ y :: rest ∧ start ⊆ before := by
  induction xs generalizing before with
  | nil => cases before <;> cases h
  | cons x xs ih =>
    rcases split_of_append_eq h with ⟨rest, hfx⟩ | ⟨start, rfl, hrest⟩
    · exact ⟨x, mem_cons_self, before, rest, hfx, List.Subset.refl _⟩
    · obtain ⟨x', hx', start', rest, hfx, hstart⟩ := ih hrest
      exact ⟨x', mem_cons_of_mem _ hx', start', rest, hfx,
        subset_append_of_subset_right _ hstart⟩

theorem base_of_entityClass {start rest : List TypeScript.Class}
    (h : e.classes routes = start ++ c :: rest) :
    ∃ base, c.base = some (.ref base)
      ∧ (base = "BaseAPI" ∨ base ∈ start.map Class.name) := by
  unfold Entity.classes at h
  cases start with
  | nil =>
    obtain ⟨rfl, -⟩ := List.cons.inj h
    exact ⟨"BaseAPI", rfl, .inl rfl⟩
  | cons first start =>
    obtain ⟨rfl, htail⟩ := List.cons.inj h
    have hc : c ∈ (e.extensionClass? routes).toList :=
      htail ▸ mem_append_right _ mem_cons_self
    obtain rfl := Entity.eq_of_extensionClass? (Option.mem_toList.1 hc)
    exact ⟨TypeName.api e.typeName, rfl, .inr mem_cons_self⟩

theorem base_of_class {before after : List TypeScript.Class}
    (h : clientClasses schema routes = before ++ c :: after) :
    ∃ base, c.base = some (.ref base)
      ∧ (base = "BaseAPI" ∨ base ∈ before.map Class.name) := by
  rcases split_of_append_eq h with ⟨rest, hentities⟩ | ⟨start, rfl, howners⟩
  · obtain ⟨e, -, start, rest, hclasses, hstart⟩ := split_of_flatMap_eq hentities
    obtain ⟨base, hbase, hbefore⟩ := base_of_entityClass hclasses
    exact ⟨base, hbase, hbefore.imp_right fun hmem => map_subset _ hstart hmem⟩
  · have hc : c ∈ (routes.standaloneOwners schema).map routes.ownerClass :=
      howners ▸ mem_append_right _ mem_cons_self
    obtain ⟨owner, -, rfl⟩ := mem_map.1 hc
    exact ⟨"BaseAPI", rfl, .inl rfl⟩

/-! ## The class that holds the others together -/

theorem notMem_propertyName {p : ClientProperty}
    (hp : p ∈ clientProperties schema routes) :
    ' ' ∉ p.name.toList := by
  have hcamel : ∀ name, ' ' ∉ (camelName name).toList := by
    intro name
    rw [camelName, String.toList_ofList]
    exact Naming.notMem_camelCase (by decide) (by decide) _
  rcases mem_append.1 (mem_of_mem_distinctBy hp) with hp | hp
  · obtain ⟨e, -, rfl⟩ := mem_map.1 hp
    exact hcamel _
  · obtain ⟨owner, -, rfl⟩ := mem_map.1 hp
    exact hcamel _

/-- Since names have no spaces, the text of a statement shows where the name
ends. -/
theorem assigns_construction {name name' className : String} (h : ' ' ∉ name.toList)
    (h' : ' ' ∉ name'.toList) :
    Statement.assigns name (construction name' className) = (name' == name) := by
  have htext : Statement.assigns name (construction name' className)
      = ("this." ++ name ++ " = ").toList.isPrefixOf
          ("this." ++ name' ++ " = new " ++ className ++ "(config);").toList := rfl
  rw [htext, Bool.eq_iff_iff, isPrefixOf_iff_prefix, beq_iff_eq]
  simp only [String.toList_append, append_assoc, prefix_append_right_inj]
  constructor
  · rintro ⟨rest, hrest⟩
    have htaken := congrArg (List.takeWhile fun c => decide (c ≠ ' ')) hrest
    rw [append_assoc] at htaken
    exact String.toList_inj.1 ((takeWhile_ne_append h' _).symm.trans
      (htaken.symm.trans (takeWhile_ne_append h _)))
  · rintro rfl
    exact (prefix_append_right_inj _).2 ⟨_, rfl⟩

theorem countP_assigns {p : ClientProperty} (hp : p ∈ clientProperties schema routes) :
    ((clientProperties schema routes).map fun q =>
      construction q.name q.className).countP (Statement.assigns p.name)
      = 1 := by
  have hsame : ∀ q ∈ clientProperties schema routes,
      Statement.assigns p.name (construction q.name q.className) = true
        ↔ (q.name == p.name) = true := by
    intro q hq
    rw [assigns_construction (notMem_propertyName hp) (notMem_propertyName hq)]
  have hnodup : ((clientProperties schema routes).map ClientProperty.name).Nodup :=
    nodup_map_distinctBy _ _
  have hcount := count_eq_one_of_mem hnodup (mem_map_of_mem hp)
  rw [countP_map]
  refine (countP_congr hsame).trans ?_
  rw [← hcount, List.count, countP_map]
  rfl

theorem properties_rootClass (ps : List ClientProperty) :
    (rootClass ps).properties = ps.map fun p => (p.name, .ref p.className) := by
  simp [Class.properties, rootClass, filterMap_append, filterMap_map]

theorem constructorBody_rootClass (ps : List ClientProperty) :
    (rootClass ps).constructorBody = ps.map fun p => construction p.name p.className := by
  simp [Class.constructorBody, rootClass, flatMap_append, flatMap_map, construction]

end Module

/-- **The client module is closed against the types module,** for every
assembled schema, all settings and all routes with handlers that name their
targets, as the routes of descriptors have. -/
theorem client_closed (components entities : List DeclaredEntity) (filter : Filter)
    (routes : RouteSet) (hroutes : routes.NamesTargets) (settings : Settings)
    (fingerprint : String) :
    let schema := Schema.assemble components entities filter
    let types := typesModule schema routes fingerprint
    ClosedAgainst types (clientModule schema routes types settings fingerprint) := by
  intro schema types
  have htypes : ∀ e ∈ schema.entities, '.' ∉ e.typeName.toList := by
    intro e he
    obtain ⟨d, kind, rfl⟩ := Schema.exists_assemble_of_mem_all (mem_append_right _ he)
    exact notMem_typeName d.uid
  have hclasses := classes_clientModule schema routes settings fingerprint types
  have himported : (clientModule schema routes types settings fingerprint).imported
      = importedNames (clientItems schema routes) (exportedNames types) := append_nil _
  have hmentioned :
      ∀ item ∈ (clientModule schema routes types settings fingerprint).items,
        ∀ name ∈ item.names,
      item ∈ clientItems schema routes ∧ Mentioned schema routes name := by
    intro item hitem name hname
    rcases mem_cons.1 hitem with rfl | hitem
    · cases hname
    · exact ⟨hitem, mentioned_of_item hitem hname⟩
  refine
    { inReach := ?_, imported_exported := ?_, imported_increasing := ?_,
      qualified := ?_, bases := ?_, root := ?_ }
  · intro item hitem name hname
    obtain ⟨hitems, hmentions⟩ := hmentioned item hitem name hname
    have hnames :
        (clientModule schema routes types settings fingerprint).classes.map Class.name
        = classNames schema routes := by rw [hclasses, map_append]; rfl
    rw [himported, hnames]
    rcases hmentions.inReach fingerprint hroutes htypes with h | h
    · exact .inl (mem_importedNames.2 ⟨⟨item, hitems, name, hname, rfl⟩, h⟩)
    · exact .inr h
  · intro name hname
    rw [himported] at hname
    exact (mem_importedNames.1 hname).2
  · rw [himported]
    exact importedNames_increasing _ _
  · intro item hitem name hname hpoint
    exact (hmentioned item hitem name hname).2.qualified fingerprint hroutes htypes hpoint
  · intro before c after hsplit hname
    rw [hclasses] at hsplit
    rcases split_of_append_eq hsplit with ⟨rest, hrest⟩ | ⟨start, -, hroot⟩
    · exact base_of_class hrest
    · have hc : c ∈ [rootClass (clientProperties schema routes)] :=
        hroot ▸ mem_append_right _ mem_cons_self
      exact absurd (mem_singleton.1 hc ▸ rfl) hname
  · have hothers : (clientClasses schema routes).filter (·.name = rootName) = [] :=
      filter_eq_nil_iff.2 fun c hc => by simpa using name_ne_rootName hc
    refine ⟨rootClass (clientProperties schema routes), ?_, ?_, ?_⟩
    · rw [hclasses, filter_append, hothers]
      rfl
    · rw [properties_rootClass, map_map]
      exact nodup_map_distinctBy _ _
    · rw [properties_rootClass, constructorBody_rootClass, hclasses]
      intro property hproperty
      obtain ⟨p, hp, rfl⟩ := mem_map.1 hproperty
      obtain ⟨c, hc, hname⟩ := exists_class_of_property hp
      refine ⟨countP_assigns hp, c, mem_append_left _ hc, by rw [hname], ?_⟩
      exact mem_map.2 ⟨p, hp, by rw [hname]⟩

theorem client_closed_search :
    let routes := RouteSet.ofDescriptors
      [{ method := "GET", path := "/search", handler := "search.find",
         types := some { response := "Page" } }]
    routes.NamesTargets ∧ ClosedAgainst (typesModule (.assemble [] [] {}) routes "")
      (clientModule (.assemble [] [] {}) routes
        (typesModule (.assemble [] [] {}) routes "") {} "") :=
  have hroutes := RouteSet.namesTargets_ofDescriptors _
  ⟨hroutes, client_closed [] [] {} _ hroutes {} ""⟩

end TypedContent

import TypedContent.Proofs.Output.ClosedClient
import TypedContent.Proofs.Output.Overloads

/-!
# The methods of a client

Every entity has a class with the standard methods of its kind. Where its
controller has custom routes, a second class extends this one with a method
for each of them, apart from the routes of core actions. Three lists meet
here: the core actions, compared as they are written; the names of the
standard methods, which depend on the kind; and the method names that
actions are spelled into, where words are joined and reserved words get a
low line (`methodName_eq_iff`).

No class has two methods of one name, since its methods are made distinct by
name (`nodup_methodNames`). Between the two classes of an entity the lists
do not fit everywhere. `findWithMeta` is a standard method and no core
action, and a core action can be spelled in other ways, so a custom route
can redeclare a standard method (`standard_methods_redeclared_iff`). Single
types have standard methods for two of the five core actions, and all five
are left out of their second class (`entity_routes_served`).
-/

namespace TypedContent

open List

open TypeScript (Class Method ClassMember)

variable {r : Route}

/-! ## Method names -/

namespace TypeScript

/-- Only a name that needs no low line in front is a method name without
one. -/
theorem methodName_eq_iff {action name : String} (h : name.toList.head? ≠ some '_') :
    methodName action = name
      ↔ camelAction action.toList = name.toList ∧ name ≠ ""
        ∧ (name.toList.head?.any Char.isDigit || reservedWords.contains name)
          = false := by
  have hlow : ∀ rest : String, "_" ++ rest ≠ name := by
    rintro rest rfl
    exact h (by simp)
  constructor
  · intro hname
    simp only [methodName] at hname
    split at hname
    · exact absurd hname (hlow "empty")
    · rename_i hne
      split at hname
      · exact absurd hname (hlow _)
      · rename_i hplain
        subst hname
        rw [String.toList_ofList]
        refine ⟨rfl, fun hempty => hne ?_, Bool.not_eq_true _ ▸ hplain⟩
        rw [← String.toList_ofList (l := camelAction action.toList), hempty]
        rfl
  · rintro ⟨hcamel, hne, hplain⟩
    have hnil : name.toList ≠ [] := fun hnil => hne (String.toList_eq_nil_iff.1 hnil)
    simp only [methodName, hcamel, String.ofList_toList]
    rw [if_neg hnil, if_neg (by rw [hplain]; exact Bool.false_ne_true)]

theorem camelAction_of_forall {cs : List Char}
    (h : ∀ c ∈ cs, isActionSeparator c = false) :
    camelAction cs = cs := by
  have hsplit : cs.splitOnP isActionSeparator = [cs] :=
    splitOnP_eq_singleton fun c hc => by
    rw [h c hc]
  cases cs with
  | nil => rfl
  | cons c cs => simp [camelAction, Text.pieces, hsplit]

end TypeScript

open TypeScript (camelAction methodName isActionSeparator)

/-- The names of the standard methods of a kind. -/
def EntityKind.standardNames : EntityKind → List String
  | single => ["find", "update"]
  | collection | component =>
    ["find", "findWithMeta", "findOne", "create", "update", "delete"]

theorem Entity.methodNames_standardMethods (e : Entity) :
    e.standardMethods.map Method.name = e.kind.standardNames := by
  unfold standardMethods
  cases e.kind <;> rfl

/-- The method of an action has the name of a standard method if the words
of the action spell that name. No action spells `delete`, which is a
reserved word. -/
theorem methodName_mem_standardNames_iff (kind : EntityKind) (action : String) :
    methodName action ∈ kind.standardNames
      ↔ ∃ name ∈ kind.standardNames,
        name ≠ "delete" ∧ camelAction action.toList = name.toList := by
  have hnames : ∀ name ∈ kind.standardNames, name.toList.head? ≠ some '_' ∧ name ≠ ""
      ∧ (name.toList.head?.any Char.isDigit || TypeScript.reservedWords.contains name)
        = decide (name = "delete") := by
    cases kind <;> decide
  have heach : ∀ name ∈ kind.standardNames,
      (methodName action = name ↔ name ≠ "delete"
        ∧ camelAction action.toList = name.toList) := by
    intro name hname
    obtain ⟨hlow, hne, hplain⟩ := hnames name hname
    rw [TypeScript.methodName_eq_iff hlow, hplain, decide_eq_false_iff_not, and_comm]
    exact ⟨fun h => ⟨h.1.2, h.2⟩, fun h => ⟨⟨hne, h.1⟩, h.2⟩⟩
  constructor
  · intro hmem
    exact ⟨_, hmem, (heach _ hmem).1 rfl⟩
  · rintro ⟨name, hname, hspelled⟩
    rwa [(heach name hname).2 hspelled]

/-! ## Methods of classes -/

namespace RouteSet

variable {owner : Owner}

variable (s : RouteSet)

theorem nodup_clientMethods (chosen : List Route) :
    ((s.clientMethods chosen).map Method.name).Nodup := by
  have hnames : (s.clientMethods chosen).map Method.name
      = (distinctBy Route.methodName chosen).map Route.methodName := by
    rw [clientMethods, map_map]
    rfl
  rw [hnames]
  exact nodup_map_distinctBy Route.methodName chosen

theorem mem_customRoutes :
    r ∈ (s.ownedBy owner).filter (fun r => !coreActions.contains r.action)
      ↔ r ∈ s.ownedBy owner ∧ r.action ∉ coreActions := by
  simp [mem_filter]

/-- A route of a custom action has a method of its name, which calls the
first of the routes with this name. -/
theorem exists_extensionMethod (hr : r ∈ s.ownedBy owner)
    (hcore : r.action ∉ coreActions) :
    ∃ first ∈ s.ownedBy owner, first.methodName = r.methodName
      ∧ first.clientMethod s ∈ s.extensionMethods owner := by
  obtain ⟨first, hfirst, hname⟩ :=
    exists_mem_distinctBy Route.methodName (s.mem_customRoutes.2 ⟨hr, hcore⟩)
  have howned := (s.mem_customRoutes.1 (mem_of_mem_distinctBy hfirst)).1
  exact ⟨first, howned, hname, mem_map_of_mem hfirst⟩

theorem exists_of_mem_extensionMethods {m : Method} (hm : m ∈ s.extensionMethods owner) :
    ∃ r ∈ s.ownedBy owner, r.action ∉ coreActions ∧ r.methodName = m.name := by
  obtain ⟨r, hr, rfl⟩ := mem_map.1 hm
  obtain ⟨howned, hcore⟩ := s.mem_customRoutes.1 (mem_of_mem_distinctBy hr)
  exact ⟨r, howned, hcore, rfl⟩

end RouteSet

namespace Entity

variable (e : Entity) (routes : RouteSet)

theorem mem_extensionMethods_iff {m : Method} :
    m ∈ routes.extensionMethods e.owner
      ↔ ∃ c ∈ (e.extensionClass? routes).toList, m ∈ c.methods := by
  have hmethods : (e.extensionClass? routes).toList.flatMap Class.methods
      = routes.extensionMethods e.owner := by
    unfold extensionClass?
    split
    · rename_i hnone
      rw [hnone]
      rfl
    · rw [Option.toList_some, flatMap_singleton]
      exact filterMap_method? _
  rw [← hmethods, mem_flatMap]

/-- The class of an entity's custom routes has a method of the same name as
one of the standard class. -/
def Redeclares (e : Entity) (routes : RouteSet) : Prop :=
  ∃ c ∈ (e.extensionClass? routes).toList, ∃ m ∈ c.methods,
    m.name ∈ (e.standardClass routes).methods.map Method.name

theorem redeclares_iff :
    e.Redeclares routes
      ↔ ∃ r ∈ routes.ownedBy e.owner,
        r.action ∉ coreActions ∧ r.methodName ∈ e.kind.standardNames := by
  unfold Redeclares
  rw [e.methods_standardClass, e.methodNames_standardMethods]
  constructor
  · rintro ⟨c, hc, m, hm, hname⟩
    obtain ⟨r, hr, hcore, hr'⟩ :=
      routes.exists_of_mem_extensionMethods
        ((e.mem_extensionMethods_iff routes).2 ⟨c, hc, hm⟩)
    exact ⟨r, hr, hcore, hr' ▸ hname⟩
  · rintro ⟨r, hr, hcore, hname⟩
    obtain ⟨first, -, hfirst, hmem⟩ := routes.exists_extensionMethod hr hcore
    obtain ⟨c, hc, hm⟩ := (e.mem_extensionMethods_iff routes).1 hmem
    have hredeclared : first.methodName ∈ e.kind.standardNames := by rwa [hfirst]
    exact ⟨c, hc, _, hm, hredeclared⟩

/-- Without separators an action is spelled as it is written, and
`findWithMeta` is the only standard method that is no core action. -/
theorem redeclares_iff_findWithMeta
    (hplain : ∀ r ∈ routes.ownedBy e.owner, ∀ c ∈ r.action.toList,
      isActionSeparator c = false) :
    e.Redeclares routes ↔ e.kind ≠ .single ∧ ∃ r ∈ routes.ownedBy e.owner,
      r.action = "findWithMeta" := by
  have honly : ∀ name ∈ e.kind.standardNames,
      name ∉ coreActions → name = "findWithMeta" ∧ e.kind ≠ .single := by
    cases e.kind <;> decide
  rw [e.redeclares_iff]
  constructor
  · rintro ⟨r, hr, hcore, hname⟩
    obtain ⟨name, hmem, -, hspelled⟩ := (methodName_mem_standardNames_iff _ _).1 hname
    rw [TypeScript.camelAction_of_forall (hplain r hr), String.toList_inj] at hspelled
    obtain ⟨hmeta, hkind⟩ := honly name hmem (hspelled ▸ hcore)
    exact ⟨hkind, r, hr, hspelled.trans hmeta⟩
  · rintro ⟨hkind, r, hr, hmeta⟩
    have hmem : methodName "findWithMeta" ∈ e.kind.standardNames := by
      revert hkind
      cases e.kind <;> decide
    have hcore : "findWithMeta" ∉ coreActions := by decide
    rw [← hmeta] at hmem hcore
    exact ⟨r, hr, hcore, hmem⟩

end Entity

section Client

variable (schema : Schema) (routes : RouteSet) (types : TypeScript.Module)
  (settings : Settings) (fingerprint : String)

variable {schema routes} in
theorem mem_classes_clientModule {e : Entity} (he : e ∈ schema.entities)
    {c : TypeScript.Class} (hc : c ∈ e.classes routes) :
    c ∈ (clientModule schema routes types settings fingerprint).classes := by
  rw [classes_clientModule]
  exact mem_append_left _ (mem_clientClasses he hc)

/-- No class of a client has two methods of one name. -/
theorem nodup_methodNames {c : TypeScript.Class}
    (hc : c ∈ (clientModule schema routes types settings fingerprint).classes) :
    (c.methods.map Method.name).Nodup := by
  rw [classes_clientModule, mem_append, mem_singleton, clientClasses, mem_append] at hc
  rcases hc with (hc | hc) | rfl
  · obtain ⟨e, -, hc⟩ := mem_flatMap.1 hc
    rcases mem_cons.1 hc with rfl | hc
    · rw [e.methods_standardClass, e.methodNames_standardMethods]
      cases e.kind <;> decide
    · obtain rfl := Entity.eq_of_extensionClass? (Option.mem_toList.1 hc)
      rw [Class.methods, filterMap_method?]
      exact routes.nodup_clientMethods _
  · obtain ⟨owner, -, rfl⟩ := mem_map.1 hc
    have hmethods : (routes.ownerClass owner).methods
        = routes.clientMethods (routes.ownedBy owner) :=
      filterMap_method? _
    rw [hmethods]
    exact routes.nodup_clientMethods _
  · have hnone : (rootClass (clientProperties schema routes)).methods = [] := by
      simp [Class.methods, rootClass, ClassMember.method?, filterMap_map,
        Function.comp_def]
    rw [hnone]
    exact nodup_nil

/-- **Which custom routes redeclare a standard method.** No class of a
client has two methods of one name. The class of an entity's custom routes
redeclares a standard method exactly if the words of some action spell the
name of one other than `delete`, and the action is not written as the core
action is. Where no action has a separator, this is the action
`findWithMeta` of an entity that is no single type. -/
theorem standard_methods_redeclared_iff :
    (∀ c ∈ (clientModule schema routes types settings fingerprint).classes,
      (c.methods.map Method.name).Nodup)
      ∧ ∀ e ∈ schema.entities,
        (∀ c ∈ e.classes routes,
          c ∈ (clientModule schema routes types settings fingerprint).classes)
        ∧ (e.Redeclares routes
          ↔ ∃ r ∈ routes.ownedBy e.owner, r.action ∉ coreActions
            ∧ ∃ name ∈ e.kind.standardNames,
              name ≠ "delete" ∧ camelAction r.action.toList = name.toList)
        ∧ ((∀ r ∈ routes.ownedBy e.owner, ∀ c ∈ r.action.toList,
          isActionSeparator c = false) →
          (e.Redeclares routes ↔ e.kind ≠ .single ∧ ∃ r ∈ routes.ownedBy e.owner,
            r.action = "findWithMeta")) := by
  refine ⟨fun c hc => nodup_methodNames schema routes types settings fingerprint hc,
    fun e he => ?_⟩
  refine ⟨fun c hc => ?_, ?_, ?_⟩
  · exact mem_classes_clientModule types settings fingerprint he hc
  · simp only [e.redeclares_iff, Route.methodName, methodName_mem_standardNames_iff]
  · exact e.redeclares_iff_findWithMeta routes

end Client

/-- Routes of the articles of a library whose methods have the names of
standard methods. -/
def redeclaringRoutes : List RouteDescriptor :=
  [{ method := "GET", path := "/articles/meta", handler := "article.findWithMeta" },
    { method := "GET", path := "/articles/:id", handler := "article.find-one" }]

theorem libraryArticle_mem :
    libraryArticle ∈ (Schema.assemble [] [declaredArticle, declaredAuthor]
      {}).entities :=
  by
  rw [assemble_library]
  exact mem_cons_self

theorem redeclaring_actions :
    libraryArticle ∈ (Schema.assemble [] [declaredArticle, declaredAuthor] {}).entities
      ∧ ((libraryArticle.extensionClass?
        (.ofDescriptors redeclaringRoutes)).toList.flatMap fun c =>
          c.methods.map Method.name) = ["findWithMeta", "findOne"]
      ∧ (libraryArticle.standardClass
        (.ofDescriptors redeclaringRoutes)).methods.map Method.name
        = ["find", "findWithMeta", "findOne", "create", "update", "delete"] := by
  exact ⟨libraryArticle_mem, by decide, by decide +kernel⟩

/-! ## Routes without a method -/

/-- The name of the method that serves a route. The standard method `delete`
is not renamed. -/
def Route.servedName (r : Route) : String :=
  if r.action = "delete" then "delete" else r.methodName

theorem Route.servedName_of_core (h : r.action ∈ coreActions) :
    r.servedName = r.action := by
  have hnames : ∀ action ∈ coreActions,
      (if action = "delete" then "delete" else TypeScript.methodName action)
        = action := by decide
  exact hnames r.action h

theorem Route.servedName_of_custom (h : r.action ∉ coreActions) :
    r.servedName = r.methodName := by
  have hdelete : "delete" ∈ coreActions := by decide
  have hne : r.action ≠ "delete" := fun heq => h (heq ▸ hdelete)
  rw [servedName, if_neg hne]

/-- The standard class serves the core actions, apart from three of them on
a single type. -/
theorem Entity.exists_standardMethod (e : Entity) {action : String}
    (hcore : action ∈ coreActions)
    (hkind : e.kind = .single → action ∉ ["findOne", "create", "delete"]) :
    ∃ m ∈ e.standardMethods, m.name = action := by
  have hserved : ∀ action ∈ coreActions,
      (e.kind = .single → action ∉ ["findOne", "create", "delete"]) →
      action ∈ e.kind.standardNames := by
    cases e.kind <;> decide
  have hmem := hserved action hcore hkind
  rwa [← e.methodNames_standardMethods, mem_map] at hmem

/-- **No route of an entity's controller is lost.** Every route of the
controller of an entity has its method in the standard class or in the class
of custom routes, and both classes are in the client. The method of a custom
action calls a route of the controller, the first one of its name. On a
single type, this is said of all actions but `findOne`, `create` and
`delete`. -/
theorem entity_routes_served {schema : Schema} {e : Entity} (he : e ∈ schema.entities)
    {routes : RouteSet} {r : Route} (hr : r ∈ routes.ownedBy e.owner)
    (hkind : e.kind = .single → r.action ∉ ["findOne", "create", "delete"])
    (types : TypeScript.Module) (settings : Settings) (fingerprint : String) :
    ∃ c ∈ e.classes routes,
      c ∈ (clientModule schema routes types settings fingerprint).classes
      ∧ ∃ m ∈ c.methods, m.name = r.servedName
        ∧ (r.action ∉ coreActions →
          ∃ first ∈ routes.ownedBy e.owner,
            first.methodName = r.methodName ∧ m = first.clientMethod routes) := by
  by_cases hcore : r.action ∈ coreActions
  · obtain ⟨m, hm, hname⟩ := e.exists_standardMethod hcore hkind
    rw [← e.methods_standardClass routes] at hm
    have hclass : e.standardClass routes ∈ e.classes routes := mem_cons_self
    refine ⟨_, hclass, mem_classes_clientModule types settings fingerprint he hclass,
      m, hm, ?_, ?_⟩
    · rw [hname, Route.servedName_of_core hcore]
    · exact fun hcustom => absurd hcore hcustom
  · obtain ⟨first, hfirst, hname, hmem⟩ := routes.exists_extensionMethod hr hcore
    obtain ⟨c, hc, hm⟩ := (e.mem_extensionMethods_iff routes).1 hmem
    have hclass : c ∈ e.classes routes := mem_cons_of_mem _ hc
    refine ⟨c, hclass, mem_classes_clientModule types settings fingerprint he hclass,
      _, hm, ?_, ?_⟩
    · rw [Route.servedName_of_custom hcore, ← hname]
      rfl
    · exact fun _ => ⟨first, hfirst, hname, rfl⟩

def deletingRoutes : RouteSet :=
  .ofDescriptors [{ method := "DELETE", path := "/articles/:id",
                    handler := "article.delete" }]

def deletingRoute : Route :=
  { method := "DELETE", path := "/articles/:id", handler := "article.delete",
    controller := "article"
    action := "delete", params := ["id"], plugin := none, pathPrefix := none }

theorem entity_routes_served_delete :
    deletingRoute ∈ deletingRoutes.ownedBy libraryArticle.owner
      ∧ deletingRoute.servedName = "delete"
      ∧ ∃ c ∈ libraryArticle.classes deletingRoutes,
        c ∈ (clientModule library deletingRoutes (typesModule library deletingRoutes "")
          {} "").classes
        ∧ ∃ m ∈ c.methods, m.name = deletingRoute.servedName := by
  have he : libraryArticle ∈ library.entities := mem_cons_self
  have hr : deletingRoute ∈ deletingRoutes.ownedBy libraryArticle.owner := by decide
  obtain ⟨c, hc, hclass, m, hm, hname, -⟩ :=
    entity_routes_served he hr (by decide) (typesModule library deletingRoutes "") {} ""
  exact ⟨hr, rfl, c, hc, hclass, m, hm, hname⟩

/-- A single type with no fields. -/
def declaredHome : DeclaredEntity :=
  { uid := "api::home.home", kind := .single, fields := [] }

/-- The method of `delete` is not called as the methods of other actions
are, and a single type has no method for a route of `create`. -/
theorem core_actions_unnamed :
    libraryArticle ∈ (Schema.assemble [] [declaredArticle, declaredAuthor] {}).entities
      ∧ deletingRoute ∈ deletingRoutes.ownedBy libraryArticle.owner
      ∧ ((libraryArticle.classes deletingRoutes).flatMap fun c =>
        c.methods.map Method.name)
        = ["find", "findWithMeta", "findOne", "create", "update", "delete"]
      ∧ deletingRoute.methodName = "_delete"
      ∧ ∃ home ∈ (Schema.assemble [] [declaredHome] {}).entities, ∃ routes : RouteSet,
        routes = .ofDescriptors
          [{ method := "POST", path := "/home", handler := "home.create" }]
        ∧ (routes.ownedBy home.owner).map Route.methodName = ["create"]
        ∧ ((home.classes routes).flatMap fun c => c.methods.map Method.name)
          = ["find", "update"] := by
  refine ⟨libraryArticle_mem, ?_, ?_, ?_, _,
    Schema.mem_entities_assemble.2 ⟨declaredHome, ?_, ?_, rfl⟩, _, rfl, ?_, ?_⟩
  all_goals decide

end TypedContent

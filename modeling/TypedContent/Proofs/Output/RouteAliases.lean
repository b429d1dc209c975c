import TypedContent.Proofs.Naming.HyphenatedNames
import TypedContent.Proofs.Output.ClosedClient

/-!
# Names of route types

The types of a route are declared under a qualified name: the namespace of
its owner and a name made of its action. The namespaces keep one route for
each owner and handler (`RouteSet.declaring`), but owners and handlers are
compared as they are given, and names are spelled from them. So a qualified
name is declared twice exactly if two routes with different owners or
handlers, and a type in the same slot, are spelled alike. If controllers and
plugins are hyphenated names and actions are in one piece, they are spelled
alike only if they are the same (`namespaceName_inj`, `pascalCase_inj`), and
all that is left is a controller whose name is another's with its plugin in
front (`route_aliases_nodup_iff`).
-/

namespace TypedContent

open List Option

variable {r r' : Route}

namespace TypeScript

/-- The members of a namespace, with its name in front. -/
def Declaration.qualifiedMembers : Declaration → List (String × String)
  | scope head members => members.map fun d => (head.name, d.name)
  | interface _ _ _ | typeAlias _ _ => []

end TypeScript

open TypeScript (Declaration)

/-! ## The names of a slot -/

theorem Slot.suffix_inj {slot slot' : Slot} {stem stem' : String}
    (h : stem ++ slot.suffix = stem' ++ slot'.suffix) :
    slot = slot' ∧ stem = stem' := by
  have hlast : ∀ (s : Slot) (stem : String),
      (stem ++ s.suffix).toList.getLast? = s.suffix.toList.getLast? := by
    intro s stem
    rw [String.toList_append, getLast?_append]
    cases s <;> rfl
  have hletters := congrArg (fun s : String => s.toList.getLast?) h
  simp only [hlast] at hletters
  have hslot : slot = slot' := by
    cases slot <;> cases slot' <;> first | rfl | exact absurd hletters (by decide)
  subst hslot
  exact ⟨rfl, (String.append_left_inj slot.suffix).1 h⟩

theorem Slot.aliasName_eq_iff {slot slot' : Slot} {action action' : String} :
    slot.aliasName action = slot'.aliasName action'
      ↔ slot = slot' ∧ Naming.pascalCase action.toList
        = Naming.pascalCase action'.toList := by
  constructor
  · intro h
    obtain ⟨hslot, hstem⟩ := Slot.suffix_inj h
    exact ⟨hslot, String.ofList_injective hstem⟩
  · rintro ⟨rfl, hstem⟩
    rw [Slot.aliasName, hstem, Slot.aliasName]

namespace RouteSet

variable (s : RouteSet)

/-- The qualified names of all types of routes, in the order of their
declarations. -/
def qualifiedAliases : List (String × String) :=
  s.namespaces.flatMap Declaration.qualifiedMembers

/-- A route has a type in a slot. -/
def Declares (r : Route) (slot : Slot) : Prop :=
  ((s.typesOf? r.handler).bind fun types => types.get slot).isSome = true

/-- Two routes have a type in a slot each. -/
def SharesSlot (r r' : Route) : Prop :=
  ∃ slot, s.Declares r slot ∧ s.Declares r' slot

/-- The qualified names of the types of a route. -/
def routeAliases (r : Route) : List (String × String) :=
  ((s.typesOf? r.handler).toList.flatMap fun types => types.aliases r.action).map fun d =>
    (s.namespaceName r.owner, d.name)

/-- The routes whose types are declared: one for each owner and handler. -/
def declaring : List Route :=
  s.owners.flatMap fun owner => distinctBy Route.handler (s.ownedBy owner)

variable {s}

theorem mem_routeAliases {q : String × String} :
    q ∈ s.routeAliases r ↔ ∃ slot, s.Declares r slot
      ∧ q = (s.namespaceName r.owner, slot.aliasName r.action) := by
  simp only [routeAliases, EndpointTypes.aliases, Declares, List.mem_map, mem_flatMap,
    mem_toList, mem_filterMap, map_eq_some_iff, isSome_iff_exists, bind_eq_some_iff]
  constructor
  · rintro ⟨d, ⟨types, htypes, slot, -, text, htext, rfl⟩, rfl⟩
    exact ⟨slot, ⟨text, types, htypes, htext⟩, rfl⟩
  · rintro ⟨slot, ⟨text, types, htypes, htext⟩, rfl⟩
    exact ⟨_, ⟨types, htypes, slot, by cases slot <;> decide, text, htext, rfl⟩, rfl⟩

theorem nodup_routeAliases (r : Route) : (s.routeAliases r).Nodup := by
  unfold routeAliases
  cases s.typesOf? r.handler with
  | none => exact nodup_nil
  | some types =>
    have hslots : Slot.all.Nodup := by decide
    rw [toList_some, flatMap_singleton, EndpointTypes.aliases, map_filterMap]
    refine hslots.filterMap fun slot slot' q hq hq' => ?_
    simp only [Option.map_map, mem_def, map_eq_some_iff] at hq hq'
    obtain ⟨_, -, rfl⟩ := hq
    obtain ⟨_, -, heq⟩ := hq'
    exact (Slot.aliasName_eq_iff.1 (congrArg Prod.snd heq)).1.symm

theorem routeAliases_congr (hs : s.NamesTargets) (hr : r ∈ s.routes) (hr' : r' ∈ s.routes)
    (howner : r.owner = r'.owner) (hhandler : r.handler = r'.handler) :
    s.routeAliases r = s.routeAliases r' := by
  rw [routeAliases, routeAliases, howner, hhandler, action_eq hs hr hr' howner hhandler]

/-! ## One route for each owner and handler -/

theorem mem_owners_iff {owner : Owner} :
    owner ∈ s.owners ↔ ∃ r ∈ s.routes, r.owner = owner := by
  rw [owners, mem_mergeSort, ← List.mem_map]
  constructor
  · exact mem_of_mem_distinctBy
  · intro h
    obtain ⟨owner', howner', rfl⟩ := exists_mem_distinctBy id h
    exact howner'

theorem owner_of_mem_distinctBy {owner : Owner}
    (h : r ∈ distinctBy Route.handler (s.ownedBy owner)) :
    r ∈ s.routes ∧ r.owner = owner := by
  have howned := mem_filter.1 (mem_of_mem_distinctBy h)
  exact ⟨howned.1, of_decide_eq_true howned.2⟩

theorem mem_routes_of_mem_declaring (h : r ∈ s.declaring) : r ∈ s.routes := by
  obtain ⟨owner, -, hr⟩ := mem_flatMap.1 h
  exact (owner_of_mem_distinctBy hr).1

theorem exists_mem_declaring (h : r ∈ s.routes) :
    ∃ r' ∈ s.declaring, r'.owner = r.owner ∧ r'.handler = r.handler := by
  have howned : r ∈ s.ownedBy r.owner := mem_filter.2 ⟨h, decide_eq_true rfl⟩
  obtain ⟨r', hr', hhandler⟩ := exists_mem_distinctBy Route.handler howned
  exact ⟨r', mem_flatMap.2 ⟨r.owner, mem_owners_iff.2 ⟨r, h, rfl⟩, hr'⟩,
    (owner_of_mem_distinctBy hr').2, hhandler⟩

theorem nodup_owners : s.owners.Nodup := by
  have hdistinct := nodup_map_distinctBy id (s.routes.map Route.owner)
  rw [List.map_id] at hdistinct
  exact (mergeSort_perm _ _).nodup_iff.2 hdistinct

theorem nodup_declaring : (s.declaring.map fun r => (r.owner, r.handler)).Nodup := by
  rw [declaring, map_flatMap, nodup_flatMap]
  refine ⟨fun owner _ => ?_, ?_⟩
  · refine List.Nodup.of_map Prod.snd ?_
    rw [List.map_map]
    exact nodup_map_distinctBy Route.handler (s.ownedBy owner)
  · refine List.Pairwise.imp (fun {o o'} hne => ?_) (nodup_owners (s := s))
    rintro ⟨owner, handler⟩ hmem hmem'
    obtain ⟨r, hr, heq⟩ := List.mem_map.1 hmem
    obtain ⟨r', hr', heq'⟩ := List.mem_map.1 hmem'
    refine hne ?_
    rw [← (owner_of_mem_distinctBy hr).2, ← (owner_of_mem_distinctBy hr').2]
    exact (congrArg Prod.fst heq).trans (congrArg Prod.fst heq').symm

theorem qualifiedAliases_eq (s : RouteSet) :
    s.qualifiedAliases = s.declaring.flatMap s.routeAliases := by
  have hnamespace :
      ∀ owner, (s.ownerNamespace? owner).toList.flatMap Declaration.qualifiedMembers
      = (distinctBy Route.handler (s.ownedBy owner)).flatMap s.routeAliases := by
    intro owner
    have hmembers : (s.ownerNamespace? owner).toList.flatMap Declaration.qualifiedMembers
        = (s.ownerAliases owner).map fun d => (s.namespaceName owner, d.name) := by
      unfold ownerNamespace?
      split
      · rename_i hnil
        rw [hnil]
        rfl
      · exact flatMap_singleton ..
    rw [hmembers, ownerAliases, map_flatMap]
    refine flatMap_congr fun r hr => ?_
    rw [routeAliases, (owner_of_mem_distinctBy hr).2]
    cases s.typesOf? r.handler with
    | none => rfl
    | some types => rw [toList_some, flatMap_singleton]
  rw [qualifiedAliases, namespaces, declaring, flatMap_assoc]
  generalize s.owners = owners
  induction owners with
  | nil => rfl
  | cons owner owners ih =>
    rw [flatMap_cons, ← ih, ← hnamespace]
    cases howner : s.ownerNamespace? owner with
    | none => rw [filterMap_cons_none howner]; rfl
    | some d =>
      rw [filterMap_cons_some howner, flatMap_cons, toList_some, flatMap_singleton]

/-- Some qualified name is the same for two routes exactly if they are
spelled alike and have a slot in common. -/
theorem exists_mem_routeAliases_iff :
    (∃ q, q ∈ s.routeAliases r ∧ q ∈ s.routeAliases r')
      ↔ s.SharesSlot r r' ∧ s.namespaceName r.owner = s.namespaceName r'.owner
        ∧ Naming.pascalCase r.action.toList = Naming.pascalCase r'.action.toList := by
  simp only [mem_routeAliases]
  constructor
  · rintro ⟨q, ⟨slot, hslot, rfl⟩, slot', hslot', heq⟩
    obtain ⟨hspace, hname⟩ := Prod.mk.inj heq
    obtain ⟨rfl, haction⟩ := Slot.aliasName_eq_iff.1 hname
    exact ⟨⟨slot, hslot, hslot'⟩, hspace, haction⟩
  · rintro ⟨⟨slot, hslot, hslot'⟩, hspace, haction⟩
    exact ⟨_, ⟨slot, hslot, rfl⟩, slot, hslot',
      by rw [hspace, Slot.aliasName_eq_iff.2 ⟨rfl, haction⟩]⟩

theorem nodup_qualifiedAliases_iff (hs : s.NamesTargets) :
    s.qualifiedAliases.Nodup
      ↔ ∀ r ∈ s.routes, ∀ r' ∈ s.routes,
        s.SharesSlot r r' → s.namespaceName r.owner = s.namespaceName r'.owner →
        Naming.pascalCase r.action.toList = Naming.pascalCase r'.action.toList →
        r.owner = r'.owner ∧ r.handler = r'.handler := by
  rw [qualifiedAliases_eq, nodup_flatMap_iff nodup_declaring fun r _ =>
    nodup_routeAliases r]
  constructor
  · intro h r hr r' hr' hslot hspace haction
    obtain ⟨r₁, hr₁, howner₁, hhandler₁⟩ := exists_mem_declaring hr
    obtain ⟨r₂, hr₂, howner₂, hhandler₂⟩ := exists_mem_declaring hr'
    obtain ⟨q, hq, hq'⟩ := exists_mem_routeAliases_iff.2 ⟨hslot, hspace, haction⟩
    rw [← routeAliases_congr hs (mem_routes_of_mem_declaring hr₁) hr howner₁ hhandler₁]
      at hq
    rw [← routeAliases_congr hs (mem_routes_of_mem_declaring hr₂) hr' howner₂ hhandler₂]
      at hq'
    have hkey := Prod.mk.inj (h r₁ hr₁ r₂ hr₂ q hq hq')
    exact ⟨by rw [← howner₁, hkey.1, howner₂], by rw [← hhandler₁, hkey.2, hhandler₂]⟩
  · intro h r hr r' hr' q hq hq'
    obtain ⟨hslot, hspace, haction⟩ := exists_mem_routeAliases_iff.1 ⟨q, hq, hq'⟩
    have hkey := h r (mem_routes_of_mem_declaring hr) r'
      (mem_routes_of_mem_declaring hr') hslot hspace haction
    exact Prod.ext hkey.1 hkey.2

end RouteSet

/-! ## Routes with names of the usual kind -/

/-- Whether a route has a hyphenated controller and plugin and an action in
one piece. -/
def Route.isConventional (r : Route) : Bool :=
  Naming.isHyphenated r.controller.toList
    && r.plugin.all (fun plugin => Naming.isHyphenated plugin.toList)
    && Naming.isSinglePiece r.action.toList

theorem Route.of_isConventional (h : r.isConventional = true) :
    Naming.isHyphenated r.controller.toList = true
      ∧ (∀ plugin, r.plugin = some plugin → Naming.isHyphenated plugin.toList = true)
      ∧ Naming.isSinglePiece r.action.toList = true := by
  rw [isConventional, Bool.and_eq_true, Bool.and_eq_true, Option.all_eq_true] at h
  exact ⟨h.1.1, h.1.2, h.2⟩

namespace RouteSet

variable {s : RouteSet}

theorem isHyphenated_qualifiedName (h : r.isConventional = true) :
    Naming.isHyphenated (s.qualifiedName r.owner).toList = true := by
  obtain ⟨hcontroller, hplugins, -⟩ := Route.of_isConventional h
  unfold qualifiedName Route.owner
  cases hplugin : r.plugin with
  | none => exact hcontroller
  | some plugin =>
    dsimp only
    split
    · have hname := Naming.isHyphenated_append (hplugins plugin hplugin) hcontroller
      simpa using hname
    · exact hcontroller

theorem namespaceName_eq_iff (h : r.isConventional = true)
    (h' : r'.isConventional = true) :
    s.namespaceName r.owner = s.namespaceName r'.owner
      ↔ s.qualifiedName r.owner = s.qualifiedName r'.owner := by
  rw [namespaceName, namespaceName, controllerNamespace, controllerNamespace,
    String.ofList_inj, Naming.namespaceName_inj (isHyphenated_qualifiedName h)
    (isHyphenated_qualifiedName h'), String.toList_inj]

end RouteSet

/-- **Which route types are declared once.** The qualified names of all
route types are distinct exactly if routes that have a type in the same slot
and are spelled alike belong to one owner and have one handler. Where all
names are of the usual kind, it is enough that no such routes of different
owners have the same qualified controller and action. -/
theorem route_aliases_nodup_iff (ds : List RouteDescriptor) :
    let s := RouteSet.ofDescriptors ds
    (s.qualifiedAliases.Nodup
      ↔ ∀ r ∈ s.routes, ∀ r' ∈ s.routes,
        s.SharesSlot r r' → s.namespaceName r.owner = s.namespaceName r'.owner →
        Naming.pascalCase r.action.toList = Naming.pascalCase r'.action.toList →
        r.owner = r'.owner ∧ r.handler = r'.handler)
      ∧ ((∀ r ∈ s.routes, r.isConventional = true) →
        (s.qualifiedAliases.Nodup
          ↔ ∀ r ∈ s.routes, ∀ r' ∈ s.routes, s.SharesSlot r r' →
            s.qualifiedName r.owner = s.qualifiedName r'.owner → r.action = r'.action →
              r.owner = r'.owner)) := by
  intro s
  have hs : s.NamesTargets := RouteSet.namesTargets_ofDescriptors ds
  refine ⟨RouteSet.nodup_qualifiedAliases_iff hs, fun hconventional => ?_⟩
  rw [RouteSet.nodup_qualifiedAliases_iff hs]
  constructor
  · intro h r hr r' hr' hslot hname haction
    have hspace :=
      (RouteSet.namespaceName_eq_iff (hconventional r hr)
        (hconventional r' hr')).2 hname
    exact (h r hr r' hr' hslot hspace (by rw [haction])).1
  · intro h r hr r' hr' hslot hspace hpascal
    have hname :=
      (RouteSet.namespaceName_eq_iff (hconventional r hr)
        (hconventional r' hr')).1 hspace
    have haction : r.action = r'.action :=
      String.toList_inj.1
        ((Naming.pascalCase_inj (Route.of_isConventional (hconventional r hr)).2.2
        (Route.of_isConventional (hconventional r' hr')).2.2).1 hpascal)
    have howner := h r hr r' hr' hslot hname haction
    refine ⟨howner, ?_⟩
    rw [hs r hr, hs r' hr', haction,
      show r.controller = r'.controller from congrArg Owner.controller howner]

/-- Routes of the application and of a plugin with controllers of one
name. -/
def conventionalRoutes : List RouteDescriptor :=
  [{ method := "GET", path := "/users/me", handler := "api::user.user.me",
     types := some { response := "number" } },
    { method := "GET", path := "/users/count", handler := "user.me",
      types := some { response := "string" },
      plugin := some "users-permissions" },
    { method := "POST", path := "/ai-chat/send", handler := "ai-chat.sendMessage",
      types := some { body := "string" } }]

theorem route_aliases_nodup_conventional :
    (RouteSet.ofDescriptors conventionalRoutes).routes.map
      (RouteSet.ofDescriptors conventionalRoutes).routeAliases
        = [[("User", "MeResponse")], [("UsersPermissionsUser", "MeResponse")],
          [("AIChat", "SendMessageRequest")]]
      ∧ (∀ r ∈ (RouteSet.ofDescriptors conventionalRoutes).routes,
        r.isConventional = true)
      ∧ (RouteSet.ofDescriptors conventionalRoutes).qualifiedAliases.Nodup := by
  have hconventional : ∀ r ∈ (RouteSet.ofDescriptors conventionalRoutes).routes,
      r.isConventional = true := by
    decide +kernel
  have howners : ∀ r ∈ (RouteSet.ofDescriptors conventionalRoutes).routes,
      ∀ r' ∈ (RouteSet.ofDescriptors conventionalRoutes).routes,
        (RouteSet.ofDescriptors conventionalRoutes).qualifiedName r.owner
          = (RouteSet.ofDescriptors conventionalRoutes).qualifiedName r'.owner →
            r.owner = r'.owner := by
    decide +kernel
  refine ⟨by decide +kernel, hconventional, ?_⟩
  refine ((route_aliases_nodup_iff conventionalRoutes).2 hconventional).2 ?_
  exact fun r hr r' hr' _ hname _ => howners r hr r' hr' hname

/-- Two actions of a controller whose names differ in spelling. -/
def clashingRoutes : List RouteDescriptor :=
  [{ method := "POST", path := "/chat/messages", handler := "chat.send-message",
     types := some { body := "string" } },
    { method := "POST", path := "/chat/quick", handler := "chat.sendMessage",
      types := some { body := "number" } }]

theorem spellings_clash :
    (RouteSet.ofDescriptors clashingRoutes).routes.map Route.handler
      = ["chat.send-message", "chat.sendMessage"]
      ∧ (RouteSet.ofDescriptors clashingRoutes).qualifiedAliases
        = [("Chat", "SendMessageRequest"), ("Chat", "SendMessageRequest")]
      ∧ ¬ (RouteSet.ofDescriptors clashingRoutes).qualifiedAliases.Nodup := by
  have haliases : (RouteSet.ofDescriptors clashingRoutes).qualifiedAliases
      = [("Chat", "SendMessageRequest"), ("Chat", "SendMessageRequest")] := by
    decide +kernel
  refine ⟨by decide +kernel, haliases, ?_⟩
  rw [haliases]
  decide

end TypedContent

import TypedContent.Output.TypesModule
import TypedContent.Proofs.Lists
import TypedContent.Proofs.Route.CollectedTypes
import TypedContent.TypeScript.Printer

/-!
# Whose types an owner's namespace shows

The namespace of an owner declares the types of its routes. Routes belong to
an owner, a controller of the application or of a plugin, but the types are
kept by handler, and a handler says the controller and the action only. So
routes of different owners can have one handler, and then they have one
entry of types, in which the first text for each slot counts, whoever gives
it (`textOf?_ofDescriptors`).

An owner's namespace is what it would be without the types of all others
exactly if, for each slot of each of its handlers, the first text of all is
the first of its own (`owner_types_isolated_iff`). Taking texts away never
adds one, so the two lists of declarations can be compared slot by slot.
-/

namespace TypedContent

open List

open TypeScript (Declaration)

/-! ## The types of one owner -/

namespace RouteDescriptor

/-- Whether the route of a descriptor belongs to an owner. -/
def isOf (owner : Owner) (d : RouteDescriptor) : Bool :=
  d.route?.map Route.owner == some owner

/-- A descriptor that keeps its types only if it belongs to an owner. -/
def keptFor (owner : Owner) (d : RouteDescriptor) : RouteDescriptor :=
  if d.isOf owner then d else { d with types := none }

theorem route?_keptFor (owner : Owner) (d : RouteDescriptor) :
    (d.keptFor owner).route? = d.route? := by
  unfold keptFor
  split <;> rfl

theorem givenText?_keptFor (owner : Owner) (handler : String) (slot : Slot)
    (d : RouteDescriptor) :
    (d.keptFor owner).givenText? handler slot
      = if d.isOf owner then d.givenText? handler slot else none := by
  unfold keptFor
  split
  · rfl
  · have hnone : RouteDescriptor.givenTypes? { d with types := none } = none := by
      unfold givenTypes?
      cases RouteDescriptor.route? { d with types := none } <;> rfl
    rw [givenText?, hnone, Option.bind_none]

end RouteDescriptor

namespace RouteSet

variable {s t : RouteSet} {owner : Owner} {handler : String}

theorem textOf?_keptFor (ds : List RouteDescriptor) (owner : Owner) (handler : String)
    (slot : Slot) :
    (ofDescriptors (ds.map (·.keptFor owner))).textOf? handler slot
      = (ds.filter (·.isOf owner)).findSome? (·.givenText? handler slot) := by
  rw [textOf?_ofDescriptors, findSome?_map, ← head?_filterMap, ← head?_filterMap,
    filterMap_filter]
  congr 2
  funext d
  exact d.givenText?_keptFor owner handler slot

/-- What the owner itself gives is given. -/
theorem isSome_textOf? (ds : List RouteDescriptor) (owner : Owner) (handler : String)
    (slot : Slot)
    (h : ((ofDescriptors (ds.map (·.keptFor owner))).textOf? handler slot).isSome) :
    ((ofDescriptors ds).textOf? handler slot).isSome := by
  rw [textOf?_keptFor, findSome?_isSome_iff] at h
  rw [textOf?_ofDescriptors, findSome?_isSome_iff]
  obtain ⟨d, hd, htext⟩ := h
  exact ⟨d, mem_of_mem_filter hd, htext⟩

theorem routes_keptFor (ds : List RouteDescriptor) (owner : Owner) :
    (ofDescriptors (ds.map (·.keptFor owner))).routes = (ofDescriptors ds).routes := by
  rw [ofDescriptors, ofDescriptors, filterMap_map]
  refine filterMap_congr fun d _ => ?_
  exact d.route?_keptFor owner

/-! ## The members of a namespace -/

/-- The members of the namespace that an owner has; there are none without a
namespace. -/
def namespaceMembers (s : RouteSet) (owner : Owner) : List Declaration :=
  match s.ownerNamespace? owner with
  | some (.scope _ members) => members
  | _ => []

theorem namespaceMembers_eq (s : RouteSet) (owner : Owner) :
    s.namespaceMembers owner = s.ownerAliases owner := by
  unfold namespaceMembers ownerNamespace?
  cases s.ownerAliases owner <;> rfl

/-- The routes of an owner whose types are declared, with the slots that
these can have. -/
def declaredSlots (s : RouteSet) (owner : Owner) : List (Route × Slot) :=
  (distinctBy Route.handler (s.ownedBy owner)).flatMap fun r =>
    Slot.all.map fun slot => (r, slot)

/-- The members are made slot by slot from the texts. -/
theorem ownerAliases_eq (s : RouteSet) (owner : Owner) :
    s.ownerAliases owner = (s.declaredSlots owner).filterMap fun (r, slot) =>
      (s.textOf? r.handler slot).map fun text =>
        .typeAlias { name := slot.aliasName r.action } (.raw text) := by
  rw [ownerAliases, declaredSlots, filterMap_flatMap]
  refine flatMap_congr fun r _ => ?_
  rw [filterMap_map]
  cases htypes : s.typesOf? r.handler with
  | none => simp [textOf?, htypes]
  | some types => simp [textOf?, htypes, EndpointTypes.aliases]

theorem ownedBy_congr (h : s.routes = t.routes) (owner : Owner) :
    s.ownedBy owner = t.ownedBy owner := by
  rw [ownedBy, ownedBy, h]

theorem mem_declaredSlots {slot : Slot} :
    (∃ r, (r, slot) ∈ s.declaredSlots owner ∧ r.handler = handler)
      ↔ ∃ r ∈ s.ownedBy owner, r.handler = handler := by
  have hslot : slot ∈ Slot.all := by cases slot <;> decide
  constructor
  · rintro ⟨r, hmem, rfl⟩
    obtain ⟨r', hr', hpair⟩ := mem_flatMap.1 hmem
    obtain ⟨slot', -, heq⟩ := mem_map.1 hpair
    obtain ⟨rfl, rfl⟩ := Prod.mk.inj heq
    exact ⟨r', mem_of_mem_distinctBy hr', rfl⟩
  · rintro ⟨r, hr, rfl⟩
    obtain ⟨r', hr', hhandler⟩ := exists_mem_distinctBy Route.handler hr
    exact ⟨r', mem_flatMap.2 ⟨r', hr', mem_map.2 ⟨slot, hslot, rfl⟩⟩, hhandler⟩

/-- Two sets with the same routes, one of which has a text wherever the
other has, show the same members exactly if their texts are the same for all
handlers of the owner. -/
theorem ownerAliases_eq_iff (hroutes : s.routes = t.routes)
    (htexts : ∀ handler slot, (t.textOf? handler slot).isSome →
      (s.textOf? handler slot).isSome) :
    s.ownerAliases owner = t.ownerAliases owner
      ↔ ∀ r ∈ s.ownedBy owner, ∀ slot,
        s.textOf? r.handler slot = t.textOf? r.handler slot := by
  have hslots : t.declaredSlots owner = s.declaredSlots owner := by
    rw [declaredSlots, declaredSlots, ownedBy_congr hroutes]
  rw [ownerAliases_eq, ownerAliases_eq, hslots,
    filterMap_eq_filterMap_iff fun p _ hp => ?_]
  · constructor
    · intro h r hr slot
      obtain ⟨r', hmem, hhandler⟩ := mem_declaredSlots.2 ⟨r, hr, rfl⟩
      have hsame := Option.map_injective (fun text text' heq => ?_) (h (r', slot) hmem)
      · rwa [hhandler] at hsame
      · obtain ⟨-, hraw⟩ := Declaration.typeAlias.inj heq
        exact TypeScript.TypeExpr.raw.inj hraw
    · rintro h ⟨r, slot⟩ hmem
      obtain ⟨r', hr', hhandler⟩ := mem_declaredSlots.1 ⟨r, hmem, rfl⟩
      have hsame := h r' hr' slot
      rw [hhandler] at hsame
      simp only [hsame]
  · simp only [Option.isSome_map] at hp ⊢
    exact htexts p.1.handler p.2 hp

/-- The members of a namespace stay the same exactly if the texts of all are
those of the owner. -/
theorem namespaceMembers_keptFor_iff (ds : List RouteDescriptor) (owner : Owner) :
    (ofDescriptors ds).namespaceMembers owner
      = (ofDescriptors (ds.map (·.keptFor owner))).namespaceMembers owner
      ↔ ∀ r ∈ (ofDescriptors ds).ownedBy owner, ∀ slot text,
        ds.findSome? (·.givenText? r.handler slot) = some text →
          (ds.filter (·.isOf owner)).findSome? (·.givenText? r.handler slot)
            = some text := by
  rw [namespaceMembers_eq, namespaceMembers_eq,
    ownerAliases_eq_iff (routes_keptFor ds owner).symm (isSome_textOf? ds owner)]
  constructor
  · intro h r hr slot text htext
    rw [← textOf?_keptFor, ← h r hr slot, textOf?_ofDescriptors, htext]
  · intro h r hr slot
    cases htext : (ofDescriptors ds).textOf? r.handler slot with
    | some text =>
      rw [textOf?_ofDescriptors] at htext
      rw [textOf?_keptFor, h r hr slot text htext]
    | none =>
      have hnone := mt (isSome_textOf? ds owner r.handler slot)
      rw [htext] at hnone
      exact (Option.not_isSome_iff_eq_none.1 (hnone (by decide))).symm

/-- Descriptors that give a text for a handler all belong to the owner if no
other owner has the handler. -/
theorem findSome?_filter_isOf {ds : List RouteDescriptor}
    (h : ∀ r ∈ (ofDescriptors ds).routes, r.handler = handler → r.owner = owner)
    (slot : Slot) :
    (ds.filter (·.isOf owner)).findSome? (·.givenText? handler slot)
      = ds.findSome? (·.givenText? handler slot) := by
  rw [← head?_filterMap, ← head?_filterMap, filterMap_filter]
  congr 1
  refine filterMap_congr fun d hd => ?_
  cases htext : d.givenText? handler slot with
  | none => split <;> rfl
  | some text =>
    obtain ⟨r, hroute, hhandler⟩ := d.exists_route_of_givenText? htext
    have howner := h r (mem_filterMap.2 ⟨d, hd, hroute⟩) hhandler
    have hof : d.isOf owner = true := by
      rw [RouteDescriptor.isOf, hroute, Option.map_some, howner, beq_self_eq_true]
    rw [if_pos hof]

end RouteSet

/-- **When an owner's namespace shows its own types only.** The members of
an owner's namespace stay the same when the types of all other owners are
taken away, exactly if the first text that is given for a slot of one of its
handlers, by whatever owner, is also the first among its own. So they do if
no other owner has a route with one of its handlers. -/
theorem owner_types_isolated_iff (ds : List RouteDescriptor) (owner : Owner) :
    ((RouteSet.ofDescriptors ds).namespaceMembers owner
        = (RouteSet.ofDescriptors (ds.map (·.keptFor owner))).namespaceMembers owner
      ↔ ∀ r ∈ (RouteSet.ofDescriptors ds).ownedBy owner, ∀ slot text,
        ds.findSome? (·.givenText? r.handler slot) = some text →
          (ds.filter (·.isOf owner)).findSome? (·.givenText? r.handler slot) = some text)
      ∧ ((∀ r ∈ (RouteSet.ofDescriptors ds).ownedBy owner,
        ∀ r' ∈ (RouteSet.ofDescriptors ds).routes,
          r'.handler = r.handler → r'.owner = owner) →
        (RouteSet.ofDescriptors ds).namespaceMembers owner
          = (RouteSet.ofDescriptors (ds.map (·.keptFor owner))).namespaceMembers
            owner) := by
  refine ⟨RouteSet.namespaceMembers_keptFor_iff ds owner, fun hhandlers => ?_⟩
  rw [RouteSet.namespaceMembers_keptFor_iff]
  intro r hr slot text htext
  rw [RouteSet.findSome?_filter_isOf (hhandlers r hr), htext]

/-- A controller of the application and one of a plugin that have an action
in common; only the plugin gives it a type. -/
def sharingRoutes : List RouteDescriptor :=
  [{ method := "GET", path := "/users/me", handler := "api::user.user.me" },
    { method := "GET", path := "/users/count", handler := "user.count",
      types := some { response := "number" } },
    { method := "GET", path := "/account", handler := "plugin::users-permissions.user.me",
      types := some { response := "string" }, plugin := some "users-permissions" }]

/-- The plugin shows its own type: the application has the same handler and
gives it none. -/
theorem owner_types_isolated_plugin :
    ((RouteSet.ofDescriptors sharingRoutes).namespaceMembers
      ⟨"user", some "users-permissions"⟩).map Declaration.render
        = ["export type MeResponse = string;\n"]
      ∧ (RouteSet.ofDescriptors sharingRoutes).namespaceMembers
        ⟨"user", some "users-permissions"⟩
        = (RouteSet.ofDescriptors (sharingRoutes.map
          (·.keptFor ⟨"user", some "users-permissions"⟩))).namespaceMembers
            ⟨"user", some "users-permissions"⟩ := by
  refine ⟨by decide +kernel, (owner_types_isolated_iff sharingRoutes _).1.2 ?_⟩
  intro r hr slot text htext
  have hown : ∀ r ∈ (RouteSet.ofDescriptors sharingRoutes).ownedBy
      ⟨"user", some "users-permissions"⟩,
      ∀ slot ∈ Slot.all,
        (sharingRoutes.filter (·.isOf ⟨"user", some "users-permissions"⟩)).findSome?
          (·.givenText? r.handler slot)
          = sharingRoutes.findSome? (·.givenText? r.handler slot) := by
    decide +kernel
  rw [hown r hr slot (by cases slot <;> decide), htext]

/-- The application shows the type of the plugin. -/
theorem shared_handler_shows_foreign_type :
    ((RouteSet.ofDescriptors sharingRoutes).namespaceMembers ⟨"user", none⟩).map
      Declaration.render
        = ["export type MeResponse = string;\n", "export type CountResponse = number;\n"]
      ∧ ((RouteSet.ofDescriptors
        (sharingRoutes.map (·.keptFor ⟨"user", none⟩))).namespaceMembers
          ⟨"user", none⟩).map Declaration.render
            = ["export type CountResponse = number;\n"]
      ∧ (RouteSet.ofDescriptors sharingRoutes).namespaceMembers ⟨"user", none⟩
        ≠ (RouteSet.ofDescriptors (sharingRoutes.map
          (·.keptFor ⟨"user", none⟩))).namespaceMembers ⟨"user", none⟩ := by
  have hall :
      ((RouteSet.ofDescriptors sharingRoutes).namespaceMembers ⟨"user", none⟩).map
        Declaration.render
      = ["export type MeResponse = string;\n",
        "export type CountResponse = number;\n"] := by decide +kernel
  have hown :
      ((RouteSet.ofDescriptors
        (sharingRoutes.map (·.keptFor ⟨"user", none⟩))).namespaceMembers
      ⟨"user", none⟩).map Declaration.render
        = ["export type CountResponse = number;\n"] := by decide +kernel
  refine ⟨hall, hown, fun heq => ?_⟩
  rw [heq, hown] at hall
  exact absurd hall (by decide)

end TypedContent

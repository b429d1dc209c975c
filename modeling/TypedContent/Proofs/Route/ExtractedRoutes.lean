import TypedContent.Proofs.Route.CollectedTypes
import TypedContent.Proofs.Source.Members
import TypedContent.Proofs.Source.SquashedTexts

/-!
# The routes and types of a list of descriptors

What a list of descriptors stands for is said here without the functions
that read it: which route a descriptor describes (`Describes`) and which
text it gives for a slot of a handler (`Gives`). All routes are kept, in
order, and of all texts for a slot the first one.
`ofDescriptors_isExtracted` says that this is what is read from every list.

Each descriptor is on its own in this. It describes at most one route
(`route?_eq_some_iff`), and a text for a slot is found by going through the
descriptors in order (`textOf?_eq_some_iff`). That a text which is stored is
squashed already is the idempotence of squashing.
-/

namespace TypedContent

open Option

variable {controller action : String}

/-! ## What a descriptor describes -/

/-- The handler, without its place, is the controller, a period and the
action, in which there is no other period. -/
def Handler.Names (handler controller action : String) : Prop :=
  normalize handler.toList = controller.toList ++ '.' :: action.toList
    ∧ '.' ∉ action.toList

theorem Handler.split?_eq_some_iff {handler : String} :
    split? handler.toList = some (controller.toList, action.toList)
      ↔ Names handler controller action :=
  Text.cutAtLast?_eq_some_iff

namespace RouteDescriptor

variable {d : RouteDescriptor} {r : Route}

/-- The controller is the one of the descriptor, or else the one that its
handler names. -/
def HasController (d : RouteDescriptor) (controller : String) : Prop :=
  d.controller = some controller ∨ d.controller = none ∧ ∃ action,
    Handler.Names d.handler controller action

/-- The action is the one of the descriptor, or else the one that its
handler names. -/
def HasAction (d : RouteDescriptor) (action : String) : Prop :=
  d.action = some action ∨ d.action = none ∧ ∃ controller,
    Handler.Names d.handler controller action

/-- The descriptor has a controller and an action, neither of them empty,
and the route is theirs. -/
structure Describes (d : RouteDescriptor) (r : Route) : Prop where
  controller : d.HasController r.controller
  action : d.HasAction r.action
  controller_ne : r.controller ≠ ""
  action_ne : r.action ≠ ""
  method : r.method = String.ofList ((Text.trim d.method.toList).map Char.toUpper)
  path : r.path = String.ofList (Text.trim d.path.toList)
  handler : r.handler = r.controller ++ "." ++ r.action
  params : r.params = (Path.params d.path.toList).map String.ofList
  plugin : r.plugin = d.plugin
  pathPrefix : r.pathPrefix = d.pathPrefix

theorem or_split?_controller :
    d.controller.or ((Handler.split? d.handler.toList).map fun (controller, _) =>
      String.ofList controller)
        = some controller ↔ d.HasController controller := by
  rw [HasController, or_eq_some_iff, map_eq_some_iff]
  refine or_congr_right (and_congr_right fun _ => ⟨?_, ?_⟩)
  · rintro ⟨⟨before, after⟩, hsplit, rfl⟩
    exact ⟨String.ofList after, Handler.split?_eq_some_iff.1 (by simpa using hsplit)⟩
  · rintro ⟨action, hnames⟩
    exact ⟨_, Handler.split?_eq_some_iff.2 hnames, String.ofList_toList⟩

theorem or_split?_action :
    d.action.or ((Handler.split? d.handler.toList).map fun (_, action) =>
      String.ofList action) = some action
      ↔ d.HasAction action := by
  rw [HasAction, or_eq_some_iff, map_eq_some_iff]
  refine or_congr_right (and_congr_right fun _ => ⟨?_, ?_⟩)
  · rintro ⟨⟨before, after⟩, hsplit, rfl⟩
    exact ⟨String.ofList before, Handler.split?_eq_some_iff.1 (by simpa using hsplit)⟩
  · rintro ⟨controller, hnames⟩
    exact ⟨_, Handler.split?_eq_some_iff.2 hnames, String.ofList_toList⟩

theorem target?_eq_some_iff :
    d.target? = some (controller, action)
      ↔ d.HasController controller ∧ d.HasAction action ∧ controller ≠ ""
        ∧ action ≠ "" := by
  unfold target?
  simp only [bind_eq_bind, bind_eq_some_iff, or_split?_controller, or_split?_action]
  constructor
  · rintro ⟨controller', hcontroller, action', haction, h⟩
    split at h
    · cases h
    · rename_i hempty
      obtain ⟨rfl, rfl⟩ := Prod.mk.inj (Option.some.inj h)
      exact ⟨hcontroller, haction, not_or.1 hempty⟩
  · rintro ⟨hcontroller, haction, hempty⟩
    exact ⟨controller, hcontroller, action, haction, if_neg (not_or.2 hempty)⟩

theorem route?_eq_some_iff : d.route? = some r ↔ d.Describes r := by
  rw [route?, map_eq_some_iff]
  constructor
  · rintro ⟨⟨controller, action⟩, htarget, rfl⟩
    obtain ⟨hcontroller, haction, hcontroller_ne, haction_ne⟩ :=
      target?_eq_some_iff.1 htarget
    exact ⟨hcontroller, haction, hcontroller_ne, haction_ne, rfl, rfl, rfl, rfl, rfl, rfl⟩
  · rintro ⟨hcontroller, haction, hcontroller_ne, haction_ne, hmethod, hpath,
      hhandler, hparams,
      hplugin, hprefix⟩
    refine ⟨_, target?_eq_some_iff.2
      ⟨hcontroller, haction, hcontroller_ne, haction_ne⟩, ?_⟩
    dsimp only
    rw [← hmethod, ← hpath, ← hhandler, ← hparams, ← hplugin, ← hprefix]

/-- The descriptor describes a route with this handler, and what is left of
its text for the slot when it is squashed is `text`. -/
def Gives (d : RouteDescriptor) (handler : String) (slot : Slot) (text : String) : Prop :=
  ∃ r types given, d.Describes r ∧ r.handler = handler ∧ d.types = some types
    ∧ types.get slot = some given
    ∧ Source.squashed given = text ∧ text ≠ ""

theorem givenText?_eq_some_iff_gives {handler text : String} {slot : Slot} :
    d.givenText? handler slot = some text ↔ d.Gives handler slot text := by
  rw [givenText?_eq_some_iff]
  constructor
  · rintro ⟨r, types, hroute, htypes, hhandler, htext⟩
    obtain ⟨given, hgiven, hsquash⟩ := bind_eq_some_iff.1 htext
    exact ⟨r, types, given, route?_eq_some_iff.1 hroute, hhandler, htypes, hgiven,
      EndpointTypes.squashText?_eq_some_iff.1 hsquash⟩
  · rintro ⟨r, types, given, hroute, hhandler, htypes, hgiven, hsquash⟩
    exact ⟨r, types, route?_eq_some_iff.2 hroute, htypes, hhandler,
      bind_eq_some_iff.2 ⟨given, hgiven, EndpointTypes.squashText?_eq_some_iff.2 hsquash⟩⟩

end RouteDescriptor

/-! ## What is read from descriptors -/

namespace RouteSet

variable {ds : List RouteDescriptor} {handler text : String} {slot : Slot}

theorem textOf?_eq_some_iff :
    (ofDescriptors ds).textOf? handler slot = some text
      ↔ FirstGives (·.Gives handler slot) ds text := by
  rw [textOf?_ofDescriptors]
  exact findSome?_eq_some_iff_firstGives fun _ _ =>
    RouteDescriptor.givenText?_eq_some_iff_gives

/-- The routes and the types are those of the descriptors. -/
structure IsExtracted (s : RouteSet) (ds : List RouteDescriptor) : Prop where
  /-- There is one route for each descriptor that describes one, in
  order. -/
  routes : AllGive RouteDescriptor.Describes ds s.routes
  /-- Types are kept under handlers of these routes. -/
  handlers : ∀ key ∈ s.types.keys, ∃ r ∈ s.routes, r.handler = key
  /-- The text for a slot is the first one that is given, and there is none
  if none is given. -/
  texts : ∀ handler slot text, s.textOf? handler slot = some text
    ↔ FirstGives (·.Gives handler slot) ds text
  /-- Types are kept only where there is a text. -/
  entries : ∀ handler, handler ∈ s.types.keys
    ↔ ∃ slot text, s.textOf? handler slot = some text
  /-- Texts are squashed and not empty. -/
  squashed : ∀ handler slot text, s.textOf? handler slot = some text →
    text ≠ "" ∧ Source.squashed text = text

theorem mem_keys_ofDescriptors :
    handler ∈ (ofDescriptors ds).types.keys
      ↔ ∃ slot text, (ofDescriptors ds).textOf? handler slot = some text := by
  rw [Keyed.mem_keys_iff, ← typesOf?, isSome_typesOf?_iff]
  simp only [isSome_iff_exists]

/-- **What is read from descriptors.** For every list of descriptors, the
routes are those that the descriptors describe, in order; types are kept
under the handlers of these routes; the text for a slot of a handler is the
first one that is left of a text for it when that is squashed, and there are
types exactly for the handlers with such a text. -/
theorem ofDescriptors_isExtracted (ds : List RouteDescriptor) :
    (ofDescriptors ds).IsExtracted ds where
  routes := allGive_filterMap (fun _ _ => RouteDescriptor.route?_eq_some_iff) ds
  handlers := by
    intro key hkey
    obtain ⟨slot, text, htext⟩ := mem_keys_ofDescriptors.1 hkey
    obtain ⟨before, d, after, rfl, ⟨r, -, -, hdescribes, hhandler, -⟩, -⟩ :=
      textOf?_eq_some_iff.1 htext
    refine ⟨r, List.mem_filterMap.2
      ⟨d, ?_, RouteDescriptor.route?_eq_some_iff.2 hdescribes⟩, hhandler⟩
    exact List.mem_append_right before List.mem_cons_self
  texts := fun _ _ _ => textOf?_eq_some_iff
  entries := fun _ => mem_keys_ofDescriptors
  squashed := by
    intro handler slot text htext
    obtain ⟨-, d, -, -, ⟨-, -, given, -, -, -, -, rfl, hne⟩, -⟩ :=
      textOf?_eq_some_iff.1 htext
    exact ⟨hne, Source.squashed_squashed given⟩

end RouteSet

end TypedContent

import TypedContent.Proofs.Maps
import TypedContent.Proofs.Selections
import TypedContent.Route.Basic

/-!
# Collected types

Types are collected from a list of entries, each of which gives texts for
the slots of a key. One entry adds its texts where there are none yet
(`get_find?_modify`), so of all texts for a slot the first one is kept
(`get_find?_collect`), and the keys are those of the entries
(`isSome_find?_collect`).

A descriptor gives the squashed texts of its types to the handler of its
route, unless they are empty (`givenText?_eq_some_iff`). A handler is a key
exactly if one of its slots has a text (`isSome_typesOf?_iff`).
-/

namespace TypedContent

open List

variable {text : String} {slot : Slot}

/-! ## The first text of a slot -/

namespace EndpointTypes

/-- The text that an entry has for a slot, if the entry is the one of a
key. -/
def textFor? (key : String) (slot : Slot)
    (entry : String × EndpointTypes) : Option String :=
  if entry.1 = key then entry.2.get slot else none

theorem textFor?_eq_some_iff {key : String} {entry : String × EndpointTypes} :
    textFor? key slot entry = some text
      ↔ entry.1 = key ∧ entry.2.get slot = some text := by
  rw [textFor?, Option.ite_none_right_eq_some]

theorem get_find?_modify (m : Keyed EndpointTypes) (entry : String × EndpointTypes)
    (key : String) (slot : Slot) :
    ((m.modify entry.1 {} (·.fill entry.2)).find? key).bind (·.get slot)
      = ((m.find? key).bind (·.get slot)).or (textFor? key slot entry) := by
  rw [Keyed.modify, Keyed.find?_insert, textFor?]
  by_cases hkey : key = entry.1
  · rw [if_pos hkey, if_pos hkey.symm, Option.bind_some, get_fill, hkey]
    cases m.find? entry.1 with
    | none => cases slot <;> rfl
    | some first => rfl
  · rw [if_neg hkey, if_neg (Ne.symm hkey), Option.or_none]

/-- Of all texts that are given for a slot, the first one is kept. -/
theorem get_find?_collect (given : List (String × EndpointTypes)) (key : String)
    (slot : Slot) :
    ((collect given).find? key).bind (·.get slot)
      = given.findSome? (textFor? key slot) := by
  have hfrom : ∀ m : Keyed EndpointTypes,
      ((given.foldl (fun m entry => m.modify entry.1 {} (·.fill entry.2)) m).find?
        key).bind (·.get slot)
        = ((m.find? key).bind (·.get slot)).or (given.findSome? (textFor? key slot)) := by
    induction given with
    | nil => exact fun m => Option.or_none.symm
    | cons entry given ih =>
      intro m
      rw [foldl_cons, ih, get_find?_modify, Option.or_assoc, findSome?_cons]
      cases textFor? key slot entry <;> rfl
  exact hfrom .empty

theorem isSome_find?_modify (m : Keyed EndpointTypes) (entry : String × EndpointTypes)
    (key : String) :
    ((m.modify entry.1 {} (·.fill entry.2)).find? key).isSome
      ↔ (m.find? key).isSome ∨ entry.1 = key := by
  rw [Keyed.modify, Keyed.find?_insert]
  by_cases hkey : key = entry.1
  · simp [hkey]
  · simp [hkey, Ne.symm hkey]

/-- The keys are those of the entries. -/
theorem isSome_find?_collect (given : List (String × EndpointTypes)) (key : String) :
    ((collect given).find? key).isSome ↔ ∃ entry ∈ given, entry.1 = key := by
  have hfrom : ∀ m : Keyed EndpointTypes,
      ((given.foldl (fun m entry => m.modify entry.1 {} (·.fill entry.2)) m).find?
        key).isSome
        ↔ (m.find? key).isSome ∨ ∃ entry ∈ given, entry.1 = key := by
    induction given with
    | nil => simp
    | cons entry given ih =>
      intro m
      rw [foldl_cons, ih, isSome_find?_modify]
      simp [or_assoc]
  exact (hfrom .empty).trans (by simp)

theorem isEmpty_eq_false_iff {types : EndpointTypes} :
    types.isEmpty = false ↔ ∃ slot text, types.get slot = some text := by
  rw [Bool.eq_false_iff, Ne, isEmpty_iff, Classical.not_forall]
  exact exists_congr fun slot => Option.ne_none_iff_exists'

/-! ## Squashed types -/

theorem squashText?_eq_some_iff {given : String} :
    squashText? given = some text ↔ Source.squashed given = text ∧ text ≠ "" := by
  rw [squashText?, Source.squashed]
  by_cases hempty : Source.squash given.toList = []
  · simp only [hempty, if_pos, reduceCtorEq, false_iff]
    rintro ⟨rfl, hne⟩
    exact hne rfl
  · simp only [hempty, if_false, Option.some.injEq, iff_self_and]
    rintro rfl hnone
    exact hempty (by simpa using congrArg String.toList hnone)

theorem get_squash (types : EndpointTypes) (slot : Slot) :
    types.squash.get slot = (types.get slot).bind squashText? := by
  cases slot <;> rfl

end EndpointTypes

/-! ## The types of descriptors -/

namespace RouteDescriptor

variable {d : RouteDescriptor} {handler : String}

/-- The text that a descriptor gives for a slot of a handler. -/
def givenText? (handler : String) (slot : Slot) (d : RouteDescriptor) : Option String :=
  d.givenTypes?.bind (EndpointTypes.textFor? handler slot)

theorem givenTypes?_eq_some_iff {key : String} {types : EndpointTypes} :
    d.givenTypes? = some (key, types)
      ↔ ∃ r given, d.route? = some r ∧ d.types = some given ∧ r.handler = key
        ∧ given.squash = types
        ∧ types.isEmpty = false := by
  unfold givenTypes?
  simp only [Option.bind_eq_bind, Option.bind_eq_some_iff]
  constructor
  · rintro ⟨r, hroute, given, hgiven, h⟩
    split at h
    · cases h
    · rename_i hempty
      obtain ⟨rfl, rfl⟩ := Prod.mk.inj (Option.some.inj h)
      exact ⟨r, given, hroute, hgiven, rfl, rfl, by simpa using hempty⟩
  · rintro ⟨r, given, hroute, hgiven, rfl, rfl, hempty⟩
    refine ⟨r, hroute, given, hgiven, ?_⟩
    rw [hempty]
    rfl

theorem givenText?_eq_some_iff :
    d.givenText? handler slot = some text
      ↔ ∃ r types, d.route? = some r ∧ d.types = some types ∧ r.handler = handler
        ∧ (types.get slot).bind EndpointTypes.squashText? = some text := by
  rw [givenText?, Option.bind_eq_some_iff]
  constructor
  · rintro ⟨⟨key, types⟩, hgiven, htext⟩
    obtain ⟨r, given, hroute, htypes, rfl, rfl, -⟩ := givenTypes?_eq_some_iff.1 hgiven
    obtain ⟨hkey, htext⟩ := EndpointTypes.textFor?_eq_some_iff.1 htext
    exact ⟨r, given, hroute, htypes, hkey, EndpointTypes.get_squash given slot ▸ htext⟩
  · rintro ⟨r, types, hroute, htypes, rfl, htext⟩
    rw [← EndpointTypes.get_squash] at htext
    have hempty := EndpointTypes.isEmpty_eq_false_iff.2 ⟨slot, text, htext⟩
    exact ⟨_, givenTypes?_eq_some_iff.2 ⟨r, types, hroute, htypes, rfl, rfl, hempty⟩,
      EndpointTypes.textFor?_eq_some_iff.2 ⟨rfl, htext⟩⟩

/-- A text is given under the handler of the descriptor's own route. -/
theorem exists_route_of_givenText? (h : d.givenText? handler slot = some text) :
    ∃ r, d.route? = some r ∧ r.handler = handler := by
  obtain ⟨r, -, hroute, -, hhandler, -⟩ := givenText?_eq_some_iff.1 h
  exact ⟨r, hroute, hhandler⟩

/-- Types are given to a handler exactly if a text is given for one of its
slots. -/
theorem exists_givenTypes?_iff :
    (∃ types, d.givenTypes? = some (handler, types))
      ↔ ∃ slot, (d.givenText? handler slot).isSome := by
  constructor
  · rintro ⟨types, hgiven⟩
    obtain ⟨-, -, -, -, -, -, hempty⟩ := givenTypes?_eq_some_iff.1 hgiven
    obtain ⟨slot, text, htext⟩ := EndpointTypes.isEmpty_eq_false_iff.1 hempty
    refine ⟨slot, Option.isSome_iff_exists.2 ⟨text, ?_⟩⟩
    rw [givenText?, hgiven]
    exact EndpointTypes.textFor?_eq_some_iff.2 ⟨rfl, htext⟩
  · rintro ⟨slot, htext⟩
    obtain ⟨text, htext⟩ := Option.isSome_iff_exists.1 htext
    obtain ⟨⟨key, types⟩, hgiven, htext⟩ := Option.bind_eq_some_iff.1 htext
    obtain ⟨rfl, -⟩ := EndpointTypes.textFor?_eq_some_iff.1 htext
    exact ⟨types, hgiven⟩

end RouteDescriptor

namespace RouteSet

/-- The text for a slot of a handler. -/
def textOf? (s : RouteSet) (handler : String) (slot : Slot) : Option String :=
  (s.typesOf? handler).bind (·.get slot)

theorem textOf?_ofDescriptors (ds : List RouteDescriptor) (handler : String)
    (slot : Slot) :
    (ofDescriptors ds).textOf? handler slot
      = ds.findSome? (·.givenText? handler slot) := by
  rw [textOf?, typesOf?, ofDescriptors, EndpointTypes.get_find?_collect,
    findSome?_filterMap]
  rfl

/-- There are types for a handler exactly if there is a text for one of its
slots. -/
theorem isSome_typesOf?_iff (ds : List RouteDescriptor) (handler : String) :
    ((ofDescriptors ds).typesOf? handler).isSome
      ↔ ∃ slot, ((ofDescriptors ds).textOf? handler slot).isSome := by
  simp only [textOf?_ofDescriptors, findSome?_isSome_iff]
  rw [typesOf?, ofDescriptors, EndpointTypes.isSome_find?_collect]
  constructor
  · rintro ⟨⟨key, types⟩, hentry, rfl⟩
    obtain ⟨d, hd, hgiven⟩ := mem_filterMap.1 hentry
    obtain ⟨slot, htext⟩ := RouteDescriptor.exists_givenTypes?_iff.1 ⟨types, hgiven⟩
    exact ⟨slot, d, hd, htext⟩
  · rintro ⟨slot, d, hd, htext⟩
    obtain ⟨types, hgiven⟩ := RouteDescriptor.exists_givenTypes?_iff.2 ⟨slot, htext⟩
    exact ⟨(handler, types), mem_filterMap.2 ⟨d, hd, hgiven⟩, rfl⟩

end RouteSet

end TypedContent

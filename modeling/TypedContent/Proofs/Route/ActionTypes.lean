import TypedContent.Proofs.Lists
import TypedContent.Proofs.Route.CollectedTypes
import TypedContent.Route.Declaration

/-!
# The types of actions

The types of an action are said in two ways, in slot blocks and by
declarations that are folded, and `ofDeclarations` merges them. Here it is
said which text each slot gets: in a slot block the last member for a slot
counts (`FillsSlot`), of all blocks for an action the first one with the
slot, and where no block has the slot, the first declaration whose name
folds to it (`FoldsTo`). Declarations fold to bodies and responses only, so
other slots come from blocks alone.

The two ways do not mix: the slot blocks are collected first
(`actionText?_ofDeclarations`), so a folded declaration fills what they
leave empty, wherever it stands in the text. `ofDeclarations_isDeclared`
puts the parts together.
-/

namespace TypedContent

open List hiding all
open Option

open EndpointTypes (textFor?)

namespace TypeDeclaration

variable {value name : List Char} {types : EndpointTypes} {m : Source.Member}

/-! ## Slot blocks -/

/-- The members of the declared types that are objects, in order. -/
def objectMembers (declared : List (List Char × List Char)) : List Source.Member :=
  declared.flatMap fun (_, value) => ((objectBody? value).map Source.members).getD []

/-- The value is an object, and the last of its members for the slot has
this text when it is squashed. -/
def FillsSlot (value : List Char) (slot : Slot) (text : String) : Prop :=
  ∃ body before m after, objectBody? value = some body
    ∧ Source.members body = before ++ m :: after
    ∧ slot? m.name = some slot ∧ (∀ m' ∈ after, slot? m'.name ≠ some slot)
    ∧ text = String.ofList (Source.squash m.value)

/-- The member is a slot block for the action and has this text for the
slot. -/
def BlockGives (action : String) (slot : Slot) (m : Source.Member)
    (text : String) : Prop :=
  m.name = action.toList ∧ FillsSlot m.value slot text

theorem slotText?_eq_some_iff {members : List Source.Member} {slot : Slot}
    {text : String} :
    slotText? members slot = some text
      ↔ ∃ before m after, members = before ++ m :: after ∧ slot? m.name = some slot
        ∧ (∀ m' ∈ after, slot? m'.name ≠ some slot)
          ∧ text = String.ofList (Source.squash m.value) := by
  rw [slotText?, map_eq_some_iff]
  constructor
  · rintro ⟨m, hlast, rfl⟩
    -- The last member is the first one from the end.
    rw [getLast?_filter, find?_eq_some_iff_append] at hlast
    obtain ⟨hslot, after, before, hsplit, hafter⟩ := hlast
    refine ⟨before.reverse, m, after.reverse, ?_,
      by simpa using hslot, fun m' hm' => ?_, rfl⟩
    · rw [← reverse_reverse members, hsplit]
      simp
    · simpa using hafter m' (mem_reverse.1 hm')
  · rintro ⟨before, m, after, rfl, hslot, hafter, rfl⟩
    refine ⟨m, ?_, rfl⟩
    rw [getLast?_filter, find?_eq_some_iff_append]
    exact ⟨by simpa using hslot, after.reverse, before.reverse, by simp, fun m' hm' => by
      simpa using hafter m' (mem_reverse.1 hm')⟩

/-- The types that the members of an object give. -/
def memberTypes (members : List Source.Member) : EndpointTypes :=
  { body := slotText? members .body
    response := slotText? members .response
    params := slotText? members .params
    query := slotText? members .query }

theorem get_memberTypes (members : List Source.Member) (slot : Slot) :
    (memberTypes members).get slot = slotText? members slot := by
  cases slot <;> rfl

theorem slotBlock?_eq_some_iff :
    slotBlock? value = some types
      ↔ ∃ body, objectBody? value = some body
        ∧ memberTypes (Source.members body) = types ∧ types.isEmpty = false := by
  unfold slotBlock?
  simp only [bind_eq_bind, bind_eq_some_iff]
  refine exists_congr fun body => and_congr_right fun _ => ?_
  rw [← memberTypes]
  split
  · rename_i hempty
    simp only [reduceCtorEq, false_iff]
    rintro ⟨rfl, hne⟩
    exact absurd hempty (Bool.eq_false_iff.1 hne)
  · rename_i hempty
    simp only [pure, Option.some.injEq, iff_self_and]
    rintro rfl
    exact Bool.eq_false_iff.2 hempty

/-- A slot block has the texts that its members give, and an object without
any is none. -/
theorem exists_slotBlock?_iff {slot : Slot} {text : String} :
    (∃ types, slotBlock? value = some types ∧ types.get slot = some text)
      ↔ FillsSlot value slot text := by
  constructor
  · rintro ⟨types, hblock, htext⟩
    obtain ⟨body, hbody, rfl, -⟩ := slotBlock?_eq_some_iff.1 hblock
    rw [get_memberTypes, slotText?_eq_some_iff] at htext
    obtain ⟨before, m, after, hmembers, hrest⟩ := htext
    exact ⟨body, before, m, after, hbody, hmembers, hrest⟩
  · rintro ⟨body, before, m, after, hbody, hmembers, hrest⟩
    have htext : (memberTypes (Source.members body)).get slot = some text := by
      rw [get_memberTypes]
      exact slotText?_eq_some_iff.2 ⟨before, m, after, hmembers, hrest⟩
    have hempty := EndpointTypes.isEmpty_eq_false_iff.2 ⟨slot, text, htext⟩
    exact ⟨_, slotBlock?_eq_some_iff.2 ⟨body, hbody, rfl, hempty⟩, htext⟩

/-- A member as a slot block, with its action. -/
def blockOf? (m : Source.Member) : Option (String × EndpointTypes) :=
  (slotBlock? m.value).map fun types => (String.ofList m.name, types)

theorem flatMap_slotBlocks (declared : List (List Char × List Char)) :
    (declared.flatMap fun (_, value) => slotBlocks value)
      = (objectMembers declared).filterMap blockOf? := by
  rw [objectMembers, filterMap_flatMap]
  refine flatMap_congr fun (_, value) _ => ?_
  dsimp only
  unfold slotBlocks
  cases objectBody? value <;> rfl

theorem blockOf?_eq_some_iff {action : String} :
    blockOf? m = some (action, types)
      ↔ m.name = action.toList ∧ slotBlock? m.value = some types := by
  rw [blockOf?, map_eq_some_iff]
  constructor
  · rintro ⟨types', hblock, heq⟩
    obtain ⟨rfl, rfl⟩ := Prod.mk.inj heq
    exact ⟨String.toList_ofList.symm, hblock⟩
  · rintro ⟨hname, hblock⟩
    exact ⟨types, hblock, by rw [hname, String.ofList_toList]⟩

theorem blockOf?_bind_textFor? {action text : String} {slot : Slot} :
    (blockOf? m).bind (textFor? action slot) = some text
      ↔ BlockGives action slot m text := by
  rw [bind_eq_some_iff, BlockGives, ← exists_slotBlock?_iff]
  constructor
  · rintro ⟨⟨key, types⟩, hblock, htext⟩
    obtain ⟨rfl, hget⟩ := EndpointTypes.textFor?_eq_some_iff.1 htext
    obtain ⟨hname, hblock⟩ := blockOf?_eq_some_iff.1 hblock
    exact ⟨hname, types, hblock, hget⟩
  · rintro ⟨hname, types, hblock, htext⟩
    exact ⟨(action, types), blockOf?_eq_some_iff.2 ⟨hname, hblock⟩,
      EndpointTypes.textFor?_eq_some_iff.2 ⟨rfl, htext⟩⟩

/-- A member is a slot block for an action exactly if it has a text for some
slot. -/
theorem exists_blockOf?_iff {action : String} :
    (∃ types, blockOf? m = some (action, types))
      ↔ ∃ slot text, BlockGives action slot m text := by
  simp only [← blockOf?_bind_textFor?, bind_eq_some_iff,
    EndpointTypes.textFor?_eq_some_iff]
  constructor
  · rintro ⟨types, hblock⟩
    obtain ⟨-, -, -, -, hempty⟩ :=
      (blockOf?_eq_some_iff.1 hblock).imp_right slotBlock?_eq_some_iff.1
    obtain ⟨slot, text, htext⟩ := EndpointTypes.isEmpty_eq_false_iff.1 hempty
    exact ⟨slot, text, (action, types), hblock, rfl, htext⟩
  · rintro ⟨slot, text, ⟨key, types⟩, hblock, rfl, -⟩
    exact ⟨types, hblock⟩

/-! ## Folded declarations -/

/-- The name is something in front of a suffix for the slot, and the action
is that with a small first letter. -/
def FoldsTo (name : List Char) (action : String) (slot : Slot) : Prop :=
  ∃ suffix stem, (suffix, slot) ∈ suffixes ∧ name = stem ++ suffix.toList ∧ stem ≠ []
    ∧ action.toList = Naming.uncapitalize stem

/-- The name of the declaration folds to the action and the slot, and this
is its type when it is squashed. -/
def FoldGives (action : String) (slot : Slot) (declaration : List Char × List Char)
    (text : String) : Prop :=
  FoldsTo declaration.1 action slot ∧ text = String.ofList (Source.squash declaration.2)

theorem FoldsTo.body_or_response {action : String} {slot : Slot}
    (h : FoldsTo name action slot) :
    slot = .body ∨ slot = .response := by
  obtain ⟨suffix, -, hmem, -⟩ := h
  have hslots : ∀ entry ∈ suffixes, entry.2 = Slot.body ∨ entry.2 = Slot.response := by
    decide
  exact hslots _ hmem

/-- No suffix ends in another one. -/
theorem suffixes_apart : ∀ entry ∈ suffixes, ∀ entry' ∈ suffixes,
    entry.1.toList <:+ entry'.1.toList → entry = entry' := by
  decide

/-- A name ends in one suffix at most, so it does not matter in which order
they are tried. -/
theorem suffix_unique {entry entry' : String × Slot} (hmem : entry ∈ suffixes)
    (hmem' : entry' ∈ suffixes) (h : entry.1.toList <:+ name)
    (h' : entry'.1.toList <:+ name) :
    entry = entry' := by
  rcases suffix_or_suffix_of_suffix h h' with hsuffix | hsuffix
  · exact suffixes_apart entry hmem entry' hmem' hsuffix
  · exact (suffixes_apart entry' hmem' entry hmem hsuffix).symm

/-- What a name folds to by one of the suffixes. -/
def foldBy? (name : List Char) (entry : String × Slot) : Option (List Char × Slot) :=
  ((entry.1.toList.isSuffixOf? name).filter (· ≠ [])).map fun stem =>
    (Naming.uncapitalize stem, entry.2)

theorem fold?_eq (name : List Char) : fold? name = suffixes.findSome? (foldBy? name) := by
  unfold fold?
  congr 1
  funext ⟨suffix, slot⟩
  rw [foldBy?]
  dsimp only
  cases suffix.toList.isSuffixOf? name with
  | none => rfl
  | some stem => cases stem <;> rfl

theorem foldBy?_eq_some_iff {stem' : List Char} {entry : String × Slot} {slot : Slot} :
    foldBy? name entry = some (stem', slot)
      ↔ entry.2 = slot ∧ ∃ stem, name = stem ++ entry.1.toList ∧ stem ≠ []
        ∧ stem' = Naming.uncapitalize stem := by
  rw [foldBy?, map_eq_some_iff]
  constructor
  · rintro ⟨stem, hstem, heq⟩
    obtain ⟨rfl, rfl⟩ := Prod.mk.inj heq
    obtain ⟨hsuffix, hne⟩ := filter_eq_some_iff.1 hstem
    exact ⟨rfl, stem, (isSuffixOf?_eq_some_iff_append_eq.1 hsuffix).symm,
      by simpa using hne, rfl⟩
  · rintro ⟨rfl, stem, hname, hne, rfl⟩
    have hsuffix := isSuffixOf?_eq_some_iff_append_eq.2 hname.symm
    exact ⟨stem, filter_eq_some_iff.2 ⟨hsuffix, by simpa using hne⟩, rfl⟩

theorem fold?_eq_some_iff {action : String} {slot : Slot} :
    fold? name = some (action.toList, slot) ↔ FoldsTo name action slot := by
  rw [fold?_eq]
  constructor
  · intro h
    obtain ⟨⟨suffix, slot'⟩, hmem, hfold⟩ := exists_of_findSome?_eq_some h
    obtain ⟨rfl, stem, hstem⟩ := foldBy?_eq_some_iff.1 hfold
    exact ⟨suffix, stem, hmem, hstem⟩
  · rintro ⟨suffix, stem, hmem, hname, hrest⟩
    have hfold : foldBy? name (suffix, slot) = some (action.toList, slot) :=
      foldBy?_eq_some_iff.2 ⟨rfl, stem, hname, hrest⟩
    -- Whichever suffix is tried first, it is this one.
    have hfound : (suffixes.findSome? (foldBy? name)).isSome :=
      findSome?_isSome_iff.2 ⟨(suffix, slot), hmem, isSome_iff_exists.2 ⟨_, hfold⟩⟩
    obtain ⟨⟨action', slot'⟩, hfirst⟩ := isSome_iff_exists.1 hfound
    obtain ⟨entry, hmem', hfold'⟩ := exists_of_findSome?_eq_some hfirst
    obtain ⟨-, stem', hname', -⟩ := foldBy?_eq_some_iff.1 hfold'
    obtain rfl := suffix_unique hmem hmem' ⟨stem, hname.symm⟩ ⟨stem', hname'.symm⟩
    rw [hfirst, ← hfold', hfold]

theorem foldedTypes?_eq_some_iff {action : String} :
    foldedTypes? name value = some (action, types)
      ↔ ∃ slot, FoldsTo name action slot
        ∧ types = .single slot (String.ofList (Source.squash value)) := by
  simp only [foldedTypes?, map_eq_some_iff, ← fold?_eq_some_iff]
  constructor
  · rintro ⟨⟨stem, slot⟩, hfold, heq⟩
    obtain ⟨rfl, rfl⟩ := Prod.mk.inj heq
    exact ⟨slot, by rw [hfold, String.toList_ofList], rfl⟩
  · rintro ⟨slot, hfold, rfl⟩
    exact ⟨_, hfold, by rw [String.ofList_toList]⟩

theorem get_single_eq_some_iff {slot slot' : Slot} {text text' : String} :
    (EndpointTypes.single slot text).get slot' = some text'
      ↔ slot = slot' ∧ text = text' := by
  cases slot <;> cases slot' <;> simp [EndpointTypes.single, EndpointTypes.get]

theorem foldedTypes?_bind_textFor? {action text : String} {slot : Slot}
    {declaration : List Char × List Char} :
    (foldedTypes? declaration.1 declaration.2).bind (textFor? action slot) = some text
      ↔ FoldGives action slot declaration text := by
  rw [bind_eq_some_iff]
  constructor
  · rintro ⟨⟨key, types⟩, hfolded, htext⟩
    obtain ⟨rfl, hget⟩ := EndpointTypes.textFor?_eq_some_iff.1 htext
    obtain ⟨slot', hfold, rfl⟩ := foldedTypes?_eq_some_iff.1 hfolded
    obtain ⟨rfl, rfl⟩ := get_single_eq_some_iff.1 hget
    exact ⟨hfold, rfl⟩
  · rintro ⟨hfold, rfl⟩
    exact ⟨_, foldedTypes?_eq_some_iff.2 ⟨slot, hfold, rfl⟩,
      EndpointTypes.textFor?_eq_some_iff.2 ⟨rfl, get_single_eq_some_iff.2 ⟨rfl, rfl⟩⟩⟩

end TypeDeclaration

/-! ## The types of an action -/

namespace EndpointTypes

open TypeDeclaration

variable {source action text : String} {slot : Slot}

/-- The text for a slot of an action. -/
def actionText? (types : Keyed EndpointTypes) (action : String)
    (slot : Slot) : Option String :=
  (types.find? action).bind (·.get slot)

/-- The slot blocks are searched first, whatever stands in front of them. -/
theorem actionText?_ofDeclarations (source action : String) (slot : Slot) :
    actionText? (ofDeclarations source) action slot
      = ((objectMembers (all source.toList)).findSome? fun m =>
        (blockOf? m).bind (textFor? action slot)).or
          ((all source.toList).findSome? fun d =>
            (foldedTypes? d.1 d.2).bind (textFor? action slot)) := by
  rw [actionText?, ofDeclarations, get_find?_collect, findSome?_append,
    flatMap_slotBlocks, findSome?_filterMap, findSome?_filterMap]

theorem actionText?_eq_some_iff :
    actionText? (ofDeclarations source) action slot = some text
      ↔ FirstGives (BlockGives action slot) (objectMembers (all source.toList)) text
        ∨ (∀ m ∈ objectMembers (all source.toList), ∀ text',
          ¬ BlockGives action slot m text')
          ∧ FirstGives (FoldGives action slot) (all source.toList) text := by
  rw [actionText?_ofDeclarations, or_eq_some_iff,
    findSome?_eq_some_iff_firstGives fun _ _ => blockOf?_bind_textFor?,
    findSome?_eq_none_iff_gives_nothing fun _ _ => blockOf?_bind_textFor?,
    findSome?_eq_some_iff_firstGives fun _ _ => foldedTypes?_bind_textFor?]

theorem mem_keys_ofDeclarations :
    action ∈ (ofDeclarations source).keys
      ↔ (∃ m ∈ objectMembers (all source.toList), ∃ slot text,
        BlockGives action slot m text)
        ∨ ∃ d ∈ all source.toList, ∃ slot, FoldsTo d.1 action slot := by
  rw [Keyed.mem_keys_iff, ofDeclarations, isSome_find?_collect, flatMap_slotBlocks]
  simp only [mem_append, mem_filterMap, ← exists_blockOf?_iff]
  constructor
  · rintro ⟨⟨key, types⟩, ⟨m, hm, hblock⟩ | ⟨d, hd, hfolded⟩, rfl⟩
    · exact .inl ⟨m, hm, types, hblock⟩
    · obtain ⟨slot, hfold, -⟩ := foldedTypes?_eq_some_iff.1 hfolded
      exact .inr ⟨d, hd, slot, hfold⟩
  · rintro (⟨m, hm, types, hblock⟩ | ⟨d, hd, slot, hfold⟩)
    · exact ⟨(action, types), .inl ⟨m, hm, hblock⟩, rfl⟩
    · exact ⟨_, .inr ⟨d, hd, foldedTypes?_eq_some_iff.2 ⟨slot, hfold, rfl⟩⟩, rfl⟩

/-- The types are those that the declarations say. -/
structure IsDeclared (types : Keyed EndpointTypes)
    (declared : List (List Char × List Char)) : Prop where
  /-- Path parameters and queries are those of the first slot block that has
  them. -/
  written : ∀ action slot text, slot = .params ∨ slot = .query →
    (actionText? types action slot = some text
      ↔ FirstGives (BlockGives action slot) (objectMembers declared) text)
  /-- Bodies and responses too, or else they are the first declaration that
  folds to them. -/
  folded : ∀ action slot text, slot = .body ∨ slot = .response →
    (actionText? types action slot = some text
      ↔ FirstGives (BlockGives action slot) (objectMembers declared) text
        ∨ (∀ m ∈ objectMembers declared, ∀ text', ¬ BlockGives action slot m text')
          ∧ FirstGives (FoldGives action slot) declared text)
  /-- There are types for the actions of slot blocks and of declarations
  that fold. -/
  keys : ∀ action, action ∈ types.keys
    ↔ (∃ m ∈ objectMembers declared, ∃ slot text, BlockGives action slot m text)
      ∨ ∃ d ∈ declared, ∃ slot, FoldsTo d.1 action slot

/-- **The types of actions.** For every text, the path parameters and the
query of an action are those of the first slot block for it that has them;
its body is that of the first slot block for it with a body or, if there is
none, the first declaration whose name folds to it, and so is its response;
and an action has types exactly if a slot block or a declaration that folds
names it. -/
theorem ofDeclarations_isDeclared (source : String) :
    IsDeclared (ofDeclarations source) (all source.toList) where
  written := by
    intro action slot text hslot
    rw [actionText?_eq_some_iff, or_iff_left]
    rintro ⟨-, -, d, -, -, ⟨hfold, -⟩, -⟩
    rcases hslot with rfl | rfl <;> rcases hfold.body_or_response with h | h <;> cases h
  folded := fun _ _ _ _ => actionText?_eq_some_iff
  keys := fun _ => mem_keys_ofDeclarations

end EndpointTypes

end TypedContent

import TypedContent.Proofs.Schema.DeclaredFields
import TypedContent.Proofs.Source.Headers

/-!
# Interfaces and registries read from declaration text

The two searches for headers, run over the text that a content model writes.
The search for interfaces finds every entity of the model
(`interfaces_text`), and the search for registries finds the two registry
blocks and maps every interface to its UID (`registered_text`).

Between two headers a search passes over names, literals and types that may
hold any words. What keeps it from seeing a header there is a sign that
closes the stretch: the colon behind `attributes`, the point in the base of
an interface, the brace that closes a block.
-/

namespace TypedContent

open List Option Source Text

namespace Declared

/-! ## Signs that stop the two patterns -/

theorem interfaceHeader_stopsAt {d : Char} (hd : isHeaderChar d = false)
    (hbrace : d ≠ '{') :
    interfaceHeader.StopsAt d := by
  intro before rest cs hahead
  have hword : ∀ word : String, word.toList.all isHeaderChar = true →
      d ∉ word.toList := by
    intro word hall hmem
    exact Bool.false_ne_true (hd.symm.trans (List.all_eq_true.1 hall d hmem))
  have hclass : Text.isBlank d = false ∧ (Text.isWord d || d == '.') = false := by
    simp only [isHeaderChar, Bool.or_eq_false_iff] at hd
    exact ⟨hd.2, by simp [hd.1]⟩
  rw [eq_none_iff_forall_ne_some]
  intro found hfound
  simp only [interfaceHeader, bind_eq_bind, bind_eq_some_iff] at hfound
  obtain ⟨cs₁, h₁, cs₂, h₂, ⟨name, cs₃⟩, h₃, cs₄, h₄, cs₅, h₅, cs₆, h₆, ⟨base, cs₇⟩, h₇,
      cs₈, h₈, -⟩ := hfound
  -- the sign stays ahead from piece to piece, up to the brace that it is
  -- not
  have hname : Ahead d rest cs₃ :=
    (((hahead.word? (hword "interface" rfl) h₁).blanks? hclass.1 h₂)).name? hd h₃
  have hextends : Ahead d rest cs₆ :=
    ((hname.blanks? hclass.1 h₄).word? (hword "extends" rfl) h₅).blanks? hclass.1 h₆
  have hbase : Ahead d rest cs₇ := hextends.run? hclass.2 h₇
  rw [(hbase.trimStart hclass.1).char?_eq_none hbrace] at h₈
  cases h₈

theorem registryHeader_stopsAt {d : Char} (hcontent : d ∉ "ContentTypeSchemas".toList)
    (hcomponent : d ∉ "ComponentSchemas".toList) (hblank : Text.isBlank d = false)
    (hbrace : d ≠ '{') :
    registryHeader.StopsAt d := by
  intro before rest cs hahead
  rw [eq_none_iff_forall_ne_some]
  intro found hfound
  simp only [registryHeader, bind_eq_bind, bind_eq_some_iff] at hfound
  obtain ⟨cs₁, h₁, cs₂, h₂, -⟩ := hfound
  have hword : Ahead d rest cs₁ := by
    rcases or_eq_some_iff.1 h₁ with h₁ | ⟨-, h₁⟩
    · exact hahead.word? hcontent h₁
    · exact hahead.word? hcomponent h₁
  rw [(hword.trimStart hblank).char?_eq_none hbrace] at h₂
  cases h₂

/-! ## Headers of interfaces -/

theorem name?_append {name : String} (hname : IsIdentifier name) {c : Char}
    (hc : (Text.isWord c || c == '$') = false) (rest : List Char) :
    name? (name.toList ++ c :: rest) = some (name.toList, c :: rest) := by
  have hword : ∀ x ∈ name.toList, (Text.isWord x || x == '$') = true := by
    intro x hx
    have := hname.isNameChar hx
    simp only [isNameChar, isNameStart, Bool.or_eq_true, beq_iff_eq] at this
    rcases this with ((hx | hx) | hx) | hx <;> simp [Text.isWord, Char.isAlphanum, hx]
  have hstart : name.toList.head?.any isNameStart = true := by
    simp only [IsIdentifier, Bool.and_eq_true] at hname
    exact hname.1
  cases hlist : name.toList with
  | nil => exact absurd hlist hname.ne_nil
  | cons x xs =>
    rw [hlist] at hword hstart
    have hxs : ∀ y ∈ xs, (Text.isWord y || y == '$') = true :=
      fun y hy => hword y (mem_cons_of_mem _ hy)
    have hx : (x.isAlpha || x == '_' || x == '$') = true := hstart
    rw [cons_append, name?, if_pos hx]
    simp only [span_eq_takeWhile_dropWhile]
    rw [takeWhile_append_of_pos hxs, dropWhile_append_of_pos hxs, takeWhile_cons_of_neg
      (by simp [hc]), dropWhile_cons_of_neg (by simp [hc]), append_nil]

/-- The base of an interface as it is written. -/
def baseText (kind : EntityKind) : List Char :=
  "Struct.".toList ++ kind.baseName.toList

theorem baseKind?_baseText (kind : EntityKind) :
    baseKind? (baseText kind) = some kind := by
  cases kind <;> rfl

theorem interfaceHeader_headerText {e : ModelEntity}
    (hname : IsIdentifier e.interfaceName) (before : Option Char) (rest : List Char) :
    interfaceHeader before (e.headerText ++ rest)
      = some ((e.interfaceName.toList, baseText e.kind), rest) := by
  have htext : e.headerText ++ rest = "interface".toList ++ ' ' :: (e.interfaceName.toList
      ++ ' ' :: ("extends Struct.".toList
        ++ (e.kind.baseName.toList ++ (" \x7b".toList ++ rest)))) := by
    unfold ModelEntity.headerText
    generalize e.interfaceName.toList = name
    generalize e.kind.baseName.toList = base
    simp
  have hkeyword :
      ∀ cs, word? "interface" ("interface".toList ++ cs) = some cs := fun cs =>
    isPrefixOf?_eq_some_iff_append_eq.2 rfl
  have hblanks : ∀ cs, blanks? (' ' :: (e.interfaceName.toList ++ cs))
      = some (e.interfaceName.toList ++ cs) := by
    intro cs
    obtain ⟨⟨c, hhead, hc⟩, -⟩ := isSolid_iff.1 hname.isSolid
    obtain ⟨tail, hlist⟩ := head?_eq_some_iff.1 hhead
    have hstart : trimStart (' ' :: (e.interfaceName.toList ++ cs))
        = e.interfaceName.toList ++ cs := by
      rw [hlist]
      exact trimStart_cons hc (tail ++ cs)
    have hblank : (' ' :: (e.interfaceName.toList ++ cs)).head?.any isBlank = true := rfl
    rw [blanks?, if_pos hblank, hstart]
  have hspace : (Text.isWord ' ' || ' ' == '$') = false := rfl
  rw [htext]
  simp only [interfaceHeader, hkeyword, bind_eq_bind, bind_some, hblanks,
    name?_append hname hspace]
  cases e.kind <;> rfl

end Declared

/-! ## The search for interfaces -/

namespace ModelEntity

variable {e : ModelEntity} (h : e.Valid)

theorem bodyText_append (rest : List Char) :
    e.bodyText ++ rest
      = " attributes".toList ++ ':' :: (" \x7b".toList
          ++ (membersText ModelField.text e.fields ++ '}' :: ("; ".toList ++ rest))) := by
  have hattributes : e.attributesText = "attributes".toList ++ ": ".toList
      ++ ('{' :: membersText ModelField.text e.fields ++ ['}']) := rfl
  have hbody : e.bodyText = ' ' :: e.attributesText ++ [';'] ++ [' '] := by
    simp only [bodyText, membersText, flatMap_cons, flatMap_nil, append_nil]
  generalize membersText ModelField.text e.fields = fields at hattributes ⊢
  simp [hbody, hattributes]

include h

/-- Neither search finds anything in the body of an interface. -/
theorem pass_bodyText {α : Type} {p : Pattern α} (hcolon : p.StopsAt ':')
    (hclose : p.StopsAt '}') (hopen : ∀ before rest, p.matchesFrom 0 before
    (" \x7b".toList ++ rest) = p.matchesFrom 0 (some '{') rest)
    (hend : ∀ before rest, p.matchesFrom 0 before ("; \x7d\n".toList ++ rest)
      = p.matchesFrom 0 (some '\n') rest)
    (before : Option Char) (rest : List Char) :
    p.matchesFrom 0 before (e.bodyText ++ ("\x7d\n".toList ++ rest))
      = p.matchesFrom 0 (some '\n') rest := by
  rw [bodyText_append, hcolon.pass (by decide), hopen,
    hclose.pass (brace_not_mem_membersText (text_readable h))]
  exact hend _ rest

/-- The search for interfaces finds the interface of an entity. -/
theorem interfaceHeader_interfaceText (before : Option Char) (rest : List Char) :
    Declared.interfaceHeader.matchesFrom 0 before (e.interfaceText ++ rest)
      = ((e.interfaceName.toList, Declared.baseText e.kind),
        e.bodyText ++ '}' :: ('\n' :: rest))
        :: Declared.interfaceHeader.matchesFrom 0 (some '\n') rest := by
  have hexport :
      ∀ cs, Declared.interfaceHeader.matchesFrom 0 before ("export ".toList ++ cs)
      = Declared.interfaceHeader.matchesFrom 0 (some ' ') cs := fun _ => rfl
  have htext : e.interfaceText ++ rest
      = "export ".toList
        ++ (e.headerText ++ (e.bodyText ++ ("\x7d\n".toList ++ rest))) := by
    unfold interfaceText
    generalize e.headerText = header
    generalize e.bodyText = body
    simp
  have hheader : e.headerText ≠ [] := by
    unfold headerText
    generalize e.interfaceName.toList = name
    generalize e.kind.baseName.toList = base
    simp
  rw [htext, hexport, Pattern.found_step hheader
    (Declared.interfaceHeader_headerText h.interfaceName (some ' ') _),
    pass_bodyText h (Declared.interfaceHeader_stopsAt rfl (by decide))
    (Declared.interfaceHeader_stopsAt rfl (by decide)) (fun _ _ => rfl)
    (fun _ _ => rfl)]
  rfl

/-- The search for registries passes over the interface of an entity. -/
theorem registryHeader_interfaceText (before : Option Char) (rest : List Char) :
    Declared.registryHeader.matchesFrom 0 before (e.interfaceText ++ rest)
      = Declared.registryHeader.matchesFrom 0 (some '\n') rest := by
  have hstops : ∀ d, d = '.' ∨ d = ':' ∨ d = '}' → Declared.registryHeader.StopsAt d := by
    rintro d (rfl | rfl | rfl) <;>
      exact Declared.registryHeader_stopsAt (by decide) (by decide) rfl (by decide)
  have htext : e.interfaceText ++ rest
      = ("export interface ".toList ++ e.interfaceName.toList ++ " extends Struct".toList)
          ++ '.' :: (e.kind.baseName.toList
            ++ (" \x7b".toList ++ (e.bodyText ++ ("\x7d\n".toList ++ rest)))) := by
    unfold interfaceText headerText
    generalize e.interfaceName.toList = name
    generalize e.kind.baseName.toList = base
    generalize e.bodyText = body
    simp
  have hbrace : '{' ∉ "export interface ".toList ++ e.interfaceName.toList
      ++ " extends Struct".toList := by
    have hname : '{' ∉ e.interfaceName.toList :=
      fun hmem => absurd (h.interfaceName.isNameChar hmem) (by decide)
    simp [hname]
  have hbase : ∀ before cs, Declared.registryHeader.matchesFrom 0 before
      (e.kind.baseName.toList ++ (" \x7b".toList ++ cs))
        = Declared.registryHeader.matchesFrom 0 (some '{') cs := by
    cases e.kind <;> exact fun _ _ => rfl
  rw [htext, (hstops '.' (by simp)).pass hbrace, hbase, pass_bodyText h
    (hstops ':' (by simp)) (hstops '}' (by simp)) (fun _ _ => rfl) fun _ _ => rfl]

end ModelEntity

/-! ## The two searches over the whole text -/

namespace ModelEntity

variable {e : ModelEntity} (h : e.Valid)

/-- The interface that declares an entity. -/
def interface (e : ModelEntity) : Declared.Interface :=
  { name := e.interfaceName, kind := e.kind, body := e.bodyText }

include h

theorem entryText_readable : Readable memberSeparators e.entryText :=
  h.uid.readable.append (by decide) (h.interfaceName.readable (by decide))

theorem openedBlock?_bodyText (rest : List Char) :
    openedBlock? '{' (marks (e.bodyText ++ '}' :: rest))
      = some { before := [], opener := '{', inner := e.bodyText, closer := '}',
               after := rest } :=
  openedBlock?_eq rfl (by decide) (bodyText_balanced h) rest

end ModelEntity

section Entries

variable {entities : List ModelEntity} (h : ∀ e ∈ entities, e.Valid)

include h

theorem brace_not_mem_entries : '{' ∉ membersText ModelEntity.entryText entities :=
  brace_not_mem_membersText fun e he => ModelEntity.entryText_readable (h e he)

theorem openedBlock?_entries (rest : List Char) :
    openedBlock? '{' (marks (membersText ModelEntity.entryText entities ++ '}' :: rest))
      = some { before := [], opener := '{',
               inner := membersText ModelEntity.entryText entities,
               closer := '}', after := rest } :=
  openedBlock?_eq rfl (by decide)
    (membersText_balanced fun e he =>
      (ModelEntity.entryText_readable (h e he)).balanced) rest

/-- Entry by entry, the members of a registry block are the UIDs with their
interfaces. -/
theorem registered_entries :
    (Source.members (membersText ModelEntity.entryText entities)).map
        (fun m => (String.ofList (trim m.value), String.ofList m.name))
      = entities.map fun e => (e.interfaceName, e.uid) := by
  have hmembers : Source.members (membersText ModelEntity.entryText entities)
      = entities.map fun e => { name := e.uid.toList, isOptional := false,
                                value := e.interfaceName.toList } := by
    refine members_membersText (fun e he => ?_) fun e he => ?_
    · have hreadable := ModelEntity.entryText_readable (h e he)
      exact ⟨hreadable.balanced, hreadable.solid⟩
    · exact (h e he).uid.isKey.member?_solid (h e he).interfaceName.isSolid
  rw [hmembers, List.map_map]
  refine map_congr_left fun e he => ?_
  simp [trim_of_isSolid (h e he).interfaceName.isSolid]

end Entries

namespace ContentModel

variable (m : ContentModel)

theorem valid_contentTypes : ∀ e ∈ m.contentTypes, e.Valid := fun e he =>
  m.valid e (mem_of_mem_filter he)

theorem valid_components : ∀ e ∈ m.components, e.Valid := fun e he =>
  m.valid e (mem_of_mem_filter he)

theorem registryText_eq :
    m.registryText
      = "declare module '@strapi/strapi' \x7b export module Public \x7b export interface ".toList
        ++ ("ContentTypeSchemas \x7b".toList
          ++ (membersText ModelEntity.entryText m.contentTypes
          ++ '}' :: (" export interface ".toList ++ ("ComponentSchemas \x7b".toList
            ++ (membersText ModelEntity.entryText m.components
              ++ '}' :: " \x7d \x7d\n".toList))))) := by
  unfold registryText
  generalize membersText ModelEntity.entryText m.contentTypes = contentTypes
  generalize membersText ModelEntity.entryText m.components = components
  simp

/-- The blocks of a registry extend nothing, so they are no interfaces of
entities. -/
theorem interfaceHeader_registryText (before : Option Char) :
    Declared.interfaceHeader.matchesFrom 0 before m.registryText = [] := by
  have hfirst : ∀ cs, Declared.interfaceHeader.matchesFrom 0 before
      ("declare module '@strapi/strapi' \x7b export module Public \x7b export interface ".toList
        ++ ("ContentTypeSchemas \x7b".toList ++ cs))
          = Declared.interfaceHeader.matchesFrom 0 (some '{') cs :=
    fun _ => rfl
  have hsecond : ∀ b cs, Declared.interfaceHeader.matchesFrom 0 b
      (" export interface ".toList ++ ("ComponentSchemas \x7b".toList ++ cs))
        = Declared.interfaceHeader.matchesFrom 0 (some '{') cs := fun _ _ => rfl
  have hstops : Declared.interfaceHeader.StopsAt '}' :=
    Declared.interfaceHeader_stopsAt rfl (by decide)
  rw [registryText_eq, hfirst, hstops.pass (brace_not_mem_entries m.valid_contentTypes),
    hsecond, hstops.pass (brace_not_mem_entries m.valid_components)]
  rfl

/-- The search for registries finds the two blocks. -/
theorem registryHeader_registryText (before : Option Char) :
    ∃ rest rest', Declared.registryHeader.matchesFrom 0 before m.registryText
      = [((), membersText ModelEntity.entryText m.contentTypes ++ '}' :: rest),
          ((), membersText ModelEntity.entryText m.components ++ '}' :: rest')] := by
  have hfirst : ∀ cs, Declared.registryHeader.matchesFrom 0 before
      ("declare module '@strapi/strapi' \x7b export module Public \x7b export interface ".toList ++ cs)
        = Declared.registryHeader.matchesFrom 0 (some ' ') cs := fun _ => rfl
  have hsecond : ∀ b cs, Declared.registryHeader.matchesFrom 0 b
      (" export interface ".toList ++ cs)
      = Declared.registryHeader.matchesFrom 0 (some ' ') cs := fun _ _ => rfl
  have hstops : Declared.registryHeader.StopsAt '}' :=
    Declared.registryHeader_stopsAt (by decide) (by decide) rfl (by decide)
  rw [registryText_eq, hfirst, Pattern.found_step (by simp) rfl,
    hstops.pass (brace_not_mem_entries m.valid_contentTypes), hsecond,
    Pattern.found_step (by simp) rfl,
    hstops.pass (brace_not_mem_entries m.valid_components)]
  exact ⟨_, _, rfl⟩

/-- The search for interfaces goes from entity to entity. `read` is what is
done with each of them. -/
theorem mapM_interfaces
    {read : (List Char × List Char) × List Char →
      Except Error (Option Declared.Interface)}
    (hread : ∀ e : ModelEntity, e.Valid →
      ∀ rest, read ((e.interfaceName.toList, Declared.baseText e.kind),
      e.bodyText ++ '}' :: rest)
    = .ok (some e.interface)) {entities : List ModelEntity} (hvalid : ∀ e ∈ entities,
    e.Valid) (before : Option Char) :
    (Declared.interfaceHeader.matchesFrom 0 before
        (entities.flatMap ModelEntity.interfaceText ++ m.registryText)).mapM read
      = .ok (entities.map fun e => some e.interface) := by
  induction entities generalizing before with
  | nil =>
    rw [flatMap_nil, nil_append, interfaceHeader_registryText]
    rfl
  | cons e entities ih =>
    have he := hvalid e mem_cons_self
    have hrest := ih (fun e' he' => hvalid e' (mem_cons_of_mem _ he')) (some '\n')
    rw [flatMap_cons, append_assoc, ModelEntity.interfaceHeader_interfaceText he,
      mapM_cons, hread e he, hrest]
    rfl

/-- The interfaces of the text are those of the entities, in their order. -/
theorem interfaces_text :
    Declared.interfaces m.text = .ok (m.entities.map ModelEntity.interface) := by
  unfold Declared.interfaces text Pattern.found
  rw [m.mapM_interfaces (fun e he rest => ?_) m.valid]
  · simp [Bind.bind, Except.bind, Pure.pure, Except.pure, filterMap_map]
  · simp only [Declared.baseKind?_baseText, ModelEntity.openedBlock?_bodyText he,
      String.ofList_toList]
    rfl

/-- The search for registries passes over all entities. -/
theorem registryHeader_interfaces {entities : List ModelEntity}
    (hvalid : ∀ e ∈ entities, e.Valid) (before : Option Char) :
    ∃ before', Declared.registryHeader.matchesFrom 0 before
        (entities.flatMap ModelEntity.interfaceText ++ m.registryText)
      = Declared.registryHeader.matchesFrom 0 before' m.registryText := by
  induction entities generalizing before with
  | nil => exact ⟨before, rfl⟩
  | cons e entities ih =>
    rw [flatMap_cons, append_assoc,
      ModelEntity.registryHeader_interfaceText (hvalid e mem_cons_self)]
    exact ih (fun e' he' => hvalid e' (mem_cons_of_mem _ he')) _

/-- The registry of the text lists every entity. -/
theorem registered_text :
    Declared.registered m.text
      = (m.contentTypes ++ m.components).map fun e => (e.interfaceName, e.uid) := by
  obtain ⟨before, hbefore⟩ := m.registryHeader_interfaces m.valid none
  obtain ⟨rest, rest', hfound⟩ := m.registryHeader_registryText before
  rw [Declared.registered, Pattern.found, text, hbefore, hfound, map_append]
  simp only [flatMap_cons, flatMap_nil, append_nil,
    openedBlock?_entries m.valid_contentTypes, openedBlock?_entries m.valid_components,
    registered_entries m.valid_contentTypes, registered_entries m.valid_components]

end ContentModel

end TypedContent

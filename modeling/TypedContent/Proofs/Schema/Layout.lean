import Mathlib.Logic.Relation
import TypedContent.Proofs.Schema.MalformedFields
import TypedContent.Proofs.Schema.TidyTypes
import TypedContent.Proofs.Source.Relayout
import TypedContent.Proofs.Source.SpacedEntries
import TypedContent.Proofs.Source.SpacedHeaders

/-!
# Layout of declaration texts

The schema of a declaration text does not depend on its blanks and comments,
as long as none stands where it is read as part of a header, a key, a name
or an argument. Texts without such a gap are *tidy* (`isTidyText`), and
changes of layout that lead from tidy texts to tidy texts leave the schema,
or the error, as it is (`schema_of_relaid`).

Tidiness is stated for each stage of the reading, and each stage is shown to
read a single-spaced text as it reads the text: headers, the entries of a
body, the attributes block, the types in it, and registries. Texts that
differ in layout have the same single-spaced form.
-/

namespace TypedContent

open List Option

namespace Declared

open Source Text

variable {body block : List Char} {i : Interface}

/-! ## The two headers -/

theorem bind_condensed {α β : Type} {f : α → α} {g : β → β} {x x' : Option α}
    {k k' : α → Option β} (hx : x' = x.map f) (hk : ∀ a, k' (f a) = (k a).map g) :
    x'.bind k' = (x.bind k).map g := by
  subst hx
  cases x with
  | none => rfl
  | some a => exact hk a

theorem brace?_condensed (cs : List Char) :
    char? '{' (trimStart (condensed cs)) = (char? '{' (trimStart cs)).map condensed := by
  rw [trimStart_condensed, char?_condensed rfl]

theorem isHeader_interfaceHeader : IsHeader interfaceHeader where
  starts := by
    intro before c cs h
    show (word? "interface" (c :: cs)).bind _ = none
    rw [word?_cons_blank (by decide) (by decide) h, bind_none]
  ends := by
    intro before cs x rest h
    simp only [interfaceHeader, bind_eq_bind, bind_eq_some_iff] at h
    obtain ⟨cs₁, h₁, cs₂, h₂, ⟨name, cs₃⟩, h₃, cs₄, h₄, cs₅, h₅, cs₆, h₆, ⟨base, cs₇⟩,
        h₇, cs₈, h₈, hx⟩ := h
    obtain ⟨-, rfl⟩ := Prod.mk.inj (Option.some.inj hx)
    have hname : cs₃ <:+ cs :=
      (name?_suffix h₃).trans ((blanks?_suffix h₂).trans (word?_suffix h₁))
    have hextends : cs₆ <:+ cs₃ :=
      (blanks?_suffix h₆).trans ((word?_suffix h₅).trans (blanks?_suffix h₄))
    exact (brace?_suffix h₈).trans ((run?_suffix h₇).trans (hextends.trans hname))
  respaced := by
    intro before before' cs _
    have hbase : ∀ c, isBlank c = true → (isWord c || c == '.') = false := by
      intro c hc
      have hpoint : (c == '.') = false := by
        rw [beq_eq_false_iff_ne]
        rintro rfl
        cases hc
      rw [isWord_of_isBlank hc, hpoint]
      rfl
    refine bind_condensed (word?_condensed (by decide) cs) fun cs => ?_
    refine bind_condensed (blanks?_condensed cs) fun cs => ?_
    refine bind_condensed (name?_condensed cs) fun (name, cs) => ?_
    refine bind_condensed (blanks?_condensed cs) fun cs => ?_
    refine bind_condensed (word?_condensed (by decide) cs) fun cs => ?_
    refine bind_condensed (blanks?_condensed cs) fun cs => ?_
    refine bind_condensed (run?_condensed hbase cs) fun (base, cs) => ?_
    exact bind_condensed (brace?_condensed cs) fun cs => rfl

theorem isHeader_registryHeader : IsHeader registryHeader where
  starts := by
    intro before c cs h
    show ((word? "ContentTypeSchemas" (c :: cs)).or
      (word? "ComponentSchemas" (c :: cs))).bind _ = none
    rw [word?_cons_blank (by decide) (by decide) h,
      word?_cons_blank (by decide) (by decide) h]
    rfl
  ends := by
    intro before cs x rest h
    simp only [registryHeader, bind_eq_bind, bind_eq_some_iff] at h
    obtain ⟨cs₁, h₁, cs₂, h₂, hx⟩ := h
    have hword : cs₁ <:+ cs := by
      rcases or_eq_some_iff.1 h₁ with h₁ | ⟨-, h₁⟩
      · exact word?_suffix h₁
      · exact word?_suffix h₁
    have hrest : cs₂ = rest := by
      split at hx
      · exact (Prod.mk.inj (Option.some.inj hx)).2
      · cases hx
    exact hrest ▸ (brace?_suffix h₂).trans hword
  respaced := by
    intro before before' cs hbefore
    have hword : (word? "ContentTypeSchemas" (condensed cs)).or
        (word? "ComponentSchemas" (condensed cs))
        = ((word? "ContentTypeSchemas" cs).or (word? "ComponentSchemas" cs)).map
          condensed := by
      rw [word?_condensed (by decide), word?_condensed (by decide), map_or]
    have hboundary :
        isBoundary before' (condensed cs).head? = isBoundary before cs.head? := by
      rw [isBoundary, isBoundary, hbefore, condensed, head?_condense]
      split
      · rename_i hblank
        obtain ⟨c, hhead, hc⟩ := (Option.any_eq_true _ _).1 hblank
        rw [hhead, any_some, any_some, isWord_of_isBlank hc]
        rfl
      · rfl
    refine bind_condensed hword fun rest =>
      bind_condensed (brace?_condensed rest) fun rest => ?_
    simp only [hboundary]
    split <;> rfl

/-! ## Bodies -/

def isTidyBody (body : List Char) : Bool :=
  (segments memberSeparators body).all isTidyEntry

theorem members_singleSpaced (h : isTidyBody body = true) :
    members (singleSpaced body) = (members body).map Member.tight := by
  rw [members_eq, members_eq, segments_singleSpaced (by decide) (by decide),
    filterMap_map, map_filterMap]
  refine filterMap_congr fun entry hentry => ?_
  rw [Function.comp_apply, member?_trim, member?_trim]
  exact member?_singleSpaced (List.all_eq_true.1 h entry hentry)

theorem memberValue?_singleSpaced (h : isTidyBody body = true) (key : List Char) :
    memberValue? (singleSpaced body) key = (memberValue? body key).map tight := by
  rw [memberValue?, members_singleSpaced h, find?_map, Option.map_map, memberValue?,
    Option.map_map]
  rfl

/-- An attributes block of tidy entries and types. -/
def isTidyBlock (block : List Char) : Bool :=
  isTidyBody block && (members block).all (isTidyType ·.value)

theorem fieldsIn_singleSpaced (h : isTidyBlock block = true) :
    fieldsIn (singleSpaced block) = fieldsIn block := by
  rw [isTidyBlock, Bool.and_eq_true, List.all_eq_true] at h
  rw [fieldsIn, members_singleSpaced h.1, filterMap_map, fieldsIn]
  exact filterMap_congr fun m hm => field?_tight (h.2 m hm) _

/-- The text of the attributes block of an interface. -/
def attributesIn? (body : List Char) : Option (List Char) :=
  (memberValue? body "attributes".toList).bind fun value =>
    (block? '{' value).map Block.inner

theorem attributesIn?_singleSpaced (h : isTidyBody body = true) :
    attributesIn? (singleSpaced body) = (attributesIn? body).map singleSpaced := by
  rw [attributesIn?, memberValue?_singleSpaced h, attributesIn?]
  cases memberValue? body "attributes".toList with
  | none => rfl
  | some value =>
    rw [map_some, bind_some, bind_some, tight, inner_block?_trim,
      inner_block?_singleSpaced]

/-- The body of an interface in tidy layout. -/
def isTidyInterface (body : List Char) : Bool :=
  isTidyBody body && (attributesIn? body).all isTidyBlock

def Interface.singleSpaced (i : Interface) : Interface :=
  { i with body := Source.singleSpaced i.body }

theorem Interface.entity?_singleSpaced (h : isTidyInterface i.body = true)
    (registry : Keyed String) :
    i.singleSpaced.entity? registry = i.entity? registry := by
  rw [isTidyInterface, Bool.and_eq_true, Option.all_eq_true] at h
  have hblock : attributesIn? i.singleSpaced.body
      = (attributesIn? i.body).map Source.singleSpaced :=
    attributesIn?_singleSpaced h.1
  rw [Interface.entity?_eq, Interface.entity?_eq, ← attributesIn?, ← attributesIn?,
    hblock, Option.map_map]
  refine Option.map_congr fun block hmem => ?_
  rw [Function.comp_apply, Interface.entityOf, fieldsIn_singleSpaced (h.2 block hmem)]
  rfl

/-! ## Registries -/

/-- The UIDs that a registry block registers, by the name of their
interface. -/
def registeredIn (block : List Char) : List (String × String) :=
  (members block).map fun m => (String.ofList (trim m.value), String.ofList m.name)

def isTidyRegistry (block : List Char) : Bool :=
  isTidyBody block && (members block).all fun m => decide (IsGapless m.value)

theorem registeredIn_singleSpaced (h : isTidyRegistry block = true) :
    registeredIn (singleSpaced block) = registeredIn block := by
  simp only [isTidyRegistry, Bool.and_eq_true, List.all_eq_true, decide_eq_true_eq] at h
  rw [registeredIn, members_singleSpaced h.1, List.map_map, registeredIn]
  refine map_congr_left fun m hm => ?_
  simp only [Function.comp_apply, Member.tight, (h.2 m hm).tight_eq, trim_trim]

theorem registered_eq (cs : List Char) :
    registered cs = (registryHeader.blocks cs).flatMap fun found =>
      (found.2.map registeredIn).getD [] := by
  rw [registered, Pattern.blocks, flatMap_map]
  refine flatMap_congr fun ((), rest) _ => ?_
  cases hblock : openedBlock? '{' (marks rest) <;> simp [hblock, registeredIn]

/-! ## Interfaces -/

/-- The interface of a header and the block behind it, if it declares an
entity. -/
def interfaceAt (found : (List Char × List Char) × Option (List Char)) :
    Except Error (Option Interface) :=
  match baseKind? found.1.2 with
  | none => .ok none
  | some kind =>
    match found.2 with
    | none => .error (.unbalancedInterface (String.ofList found.1.1))
    | some body => .ok (some ⟨String.ofList found.1.1, kind, body⟩)

theorem interfaces_eq (cs : List Char) :
    interfaces cs = ((interfaceHeader.blocks cs).mapM interfaceAt).map
      (List.filterMap id) := by
  have hbind : ∀ read : Except Error (List (Option Interface)),
      (do return (← read).filterMap id) = read.map (List.filterMap id) := by
    rintro (_ | _) <;> rfl
  rw [interfaces, hbind, Pattern.blocks, mapM_map]
  refine congrArg (Except.map (List.filterMap id))
    (congrArg (fun read => List.mapM read _) (funext ?_))
  rintro ⟨⟨name, base⟩, rest⟩
  simp only [Function.comp_apply, interfaceAt]
  cases baseKind? base <;> cases openedBlock? '{' (marks rest) <;> rfl

/-- Single-spaced blocks behind headers declare single-spaced interfaces, or
the same error. -/
theorem mapM_interfaceAt (blocks : List ((List Char × List Char) × Option (List Char))) :
    (blocks.map (Prod.map id (Option.map singleSpaced))).mapM interfaceAt
      = (blocks.mapM interfaceAt).map (List.map (Option.map Interface.singleSpaced)) := by
  refine mapM_map_eq_map fun ((name, base), body) _ => ?_
  simp only [interfaceAt, Prod.map, id]
  cases baseKind? base <;> cases body <;> rfl

theorem eq_of_interfaceAt {block : (List Char × List Char) × Option (List Char)}
    (h : interfaceAt block = .ok (some i)) :
    (baseKind? block.1.2).isSome = true ∧ block.2 = some i.body := by
  rw [interfaceAt] at h
  split at h
  · cases h
  · rename_i kind hkind
    split at h
    · cases h
    · rename_i body hbody
      obtain rfl := Option.some.inj (Except.ok.inj h)
      exact ⟨by rw [hkind]; rfl, hbody⟩

/-! ## Texts -/

/-- A text whose headers stand in the code, with tidy interfaces and
registries. -/
structure IsTidyText (cs : List Char) : Prop where
  interfaceHeaders : HeadersInCode interfaceHeader cs
  registryHeaders : HeadersInCode registryHeader cs
  interfaces : ∀ found ∈ interfaceHeader.blocks cs, (baseKind? found.1.2).isSome = true →
    found.2.all isTidyInterface = true
  registries : ∀ found ∈ registryHeader.blocks cs, found.2.all isTidyRegistry = true

instance (cs : List Char) : Decidable (IsTidyText cs) :=
  decidable_of_iff (HeadersInCode interfaceHeader cs ∧ HeadersInCode registryHeader cs
      ∧ (∀ found ∈ interfaceHeader.blocks cs, (baseKind? found.1.2).isSome = true →
        found.2.all isTidyInterface = true)
      ∧ ∀ found ∈ registryHeader.blocks cs, found.2.all isTidyRegistry = true)
    ⟨fun ⟨h, h', hi, hr⟩ => ⟨h, h', hi, hr⟩, fun ⟨h, h', hi, hr⟩ => ⟨h, h', hi, hr⟩⟩

namespace IsTidyText

variable {cs cs' : List Char}

theorem isTidyInterface (h : IsTidyText cs) {found : List Interface}
    (hok : Declared.interfaces cs = .ok found) :
    ∀ i ∈ found, Declared.isTidyInterface i.body = true := by
  intro i hi
  rw [interfaces_eq] at hok
  cases hread : (interfaceHeader.blocks cs).mapM interfaceAt with
  | error e => simp [hread, Except.map] at hok
  | ok read =>
    rw [hread] at hok
    obtain rfl := Except.ok.inj hok
    obtain ⟨block, hmem, hblock⟩ := exists_of_mem_mapM_ok hread (by simpa using hi)
    obtain ⟨hkind, hbody⟩ := eq_of_interfaceAt hblock
    have htidy := h.interfaces block hmem hkind
    rwa [hbody, all_some] at htidy

/-- Texts of the same single-spaced form have interfaces of the same
single-spaced form, or the same error. -/
theorem interfaces_congr (h : IsTidyText cs) (h' : IsTidyText cs')
    (heq : spaced (marks cs) = spaced (marks cs')) :
    (Declared.interfaces cs).map (List.map Interface.singleSpaced)
      = (Declared.interfaces cs').map (List.map Interface.singleSpaced) := by
  have hspaced : ∀ text, (Declared.interfaces text).map (List.map Interface.singleSpaced)
      = (((interfaceHeader.blocks text).map
        (Prod.map id (Option.map singleSpaced))).mapM interfaceAt).map
          (List.filterMap id) := fun text => by
    rw [interfaces_eq, mapM_interfaceAt]
    cases (interfaceHeader.blocks text).mapM interfaceAt with
    | error e => rfl
    | ok found => simp [Except.map, map_filterMap, filterMap_map]
  rw [hspaced, hspaced, blocks_congr isHeader_interfaceHeader h.interfaceHeaders
    h'.interfaceHeaders heq]

theorem registered_congr (h : IsTidyText cs) (h' : IsTidyText cs')
    (heq : spaced (marks cs) = spaced (marks cs')) :
    registered cs = registered cs' := by
  have hspaced : ∀ {text}, IsTidyText text → registered text
      = ((registryHeader.blocks text).map
        (Prod.map id (Option.map singleSpaced))).flatMap fun found =>
          (found.2.map registeredIn).getD [] := fun {text} htext => by
    rw [registered_eq, flatMap_map]
    refine flatMap_congr fun (_, block) hmem => ?_
    have htidy := htext.registries _ hmem
    cases block with
    | none => rfl
    | some block => exact (registeredIn_singleSpaced htidy).symm
  rw [hspaced h, hspaced h', blocks_congr isHeader_registryHeader h.registryHeaders
    h'.registryHeaders heq]

end IsTidyText

end Declared

namespace DeclarationText

open Source Declared

/-- What the interfaces of a text and its registry are assembled to. -/
def assembled (registry : Keyed String) (filter : Filter)
    (interfaces : List Interface) : Except Error Schema :=
  if interfaces = [] then .error .noInterfaces
  else
    let declared := interfaces.filterMap (·.entity? registry)
    .ok (Schema.assemble (declared.filter (·.kind == .component))
      (declared.filter (·.kind != .component)) filter)

theorem schema_eq (t : DeclarationText) (filter : Filter) :
    t.schema filter = (interfaces t.contentTypes.toList).bind fun contentTypes =>
      (interfaces t.components.toList).bind fun components =>
        assembled (Keyed.ofList (registered t.contentTypes.toList
          ++ registered t.components.toList)) filter
          (contentTypes ++ components) := by
  unfold schema assembled
  dsimp only
  cases interfaces t.contentTypes.toList with
  | error e => rfl
  | ok contentTypes =>
    cases interfaces t.components.toList with
    | error e => rfl
    | ok components =>
      simp only [bind, Except.bind]
      split <;> rfl

theorem assembled_singleSpaced {interfaces : List Interface}
    (h : ∀ i ∈ interfaces, isTidyInterface i.body = true) (registry : Keyed String)
    (filter : Filter) :
    assembled registry filter (interfaces.map Interface.singleSpaced)
      = assembled registry filter interfaces := by
  have hentities : (interfaces.map Interface.singleSpaced).filterMap (·.entity? registry)
      = interfaces.filterMap (·.entity? registry) := by
    rw [filterMap_map]
    exact filterMap_congr fun i hi => i.entity?_singleSpaced (h i hi) registry
  rw [assembled, hentities, assembled]
  simp only [map_eq_nil_iff]

/-- Both texts are tidy. -/
def IsTidy (t : DeclarationText) : Prop :=
  IsTidyText t.contentTypes.toList ∧ IsTidyText t.components.toList

/-- The schema of tidy texts follows from the single-spaced forms of their
interfaces. -/
theorem schema_eq_singleSpaced {t : DeclarationText} (h : t.IsTidy) (filter : Filter) :
    t.schema filter = ((interfaces t.contentTypes.toList).map
      (List.map Interface.singleSpaced)).bind fun contentTypes =>
      ((interfaces t.components.toList).map (List.map Interface.singleSpaced)).bind
        fun components =>
        assembled (Keyed.ofList (registered t.contentTypes.toList
          ++ registered t.components.toList)) filter
          (contentTypes ++ components) := by
  rw [schema_eq]
  cases hcontentTypes : interfaces t.contentTypes.toList with
  | error e => simp only [Except.map, Except.bind]
  | ok contentTypes =>
    cases hcomponents : interfaces t.components.toList with
    | error e => simp only [Except.map, Except.bind]
    | ok components =>
      have htidy : ∀ i ∈ contentTypes ++ components, isTidyInterface i.body = true :=
        forall_mem_append.2 ⟨h.1.isTidyInterface hcontentTypes,
          h.2.isTidyInterface hcomponents⟩
      simp only [Except.map, Except.bind]
      rw [← map_append, assembled_singleSpaced htidy]

/-- Changes of layout, any number of them in either text. -/
def IsRelaid (t t' : DeclarationText) : Prop :=
  Relation.ReflTransGen Relaid t.contentTypes.toList t'.contentTypes.toList
    ∧ Relation.ReflTransGen Relaid t.components.toList t'.components.toList

theorem spaced_of_relayout {cs cs' : List Char}
    (h : Relation.ReflTransGen Relaid cs cs') :
    spaced (marks cs) = spaced (marks cs') := by
  induction h with
  | refl => rfl
  | tail _ hstep ih => exact ih.trans (spaced_of_relaid hstep)

/-- Layout and comments are inert in tidy texts: however they are changed,
the schema or the error is the same. -/
theorem schema_of_relaid {t t' : DeclarationText} (h : t.IsTidy) (h' : t'.IsTidy)
    (hrelaid : IsRelaid t t') (filter : Filter) :
    t'.schema filter = t.schema filter := by
  have hcontentTypes := spaced_of_relayout hrelaid.1
  have hcomponents := spaced_of_relayout hrelaid.2
  rw [schema_eq_singleSpaced h, schema_eq_singleSpaced h',
    h.1.interfaces_congr h'.1 hcontentTypes, h.2.interfaces_congr h'.2 hcomponents,
    h.1.registered_congr h'.1 hcontentTypes, h.2.registered_congr h'.2 hcomponents]

/-- A text with one field. -/
def oneField : DeclarationText :=
  { contentTypes :=
      "interface ApiItemItem extends CollectionType \x7b attributes: \x7b title: String & Required; \x7d \x7d" }

/-- The text with a comment in front of the field. -/
def fieldCommented : DeclarationText :=
  { contentTypes :=
      "interface ApiItemItem extends CollectionType \x7b attributes: \x7b// c\n title: String & Required; \x7d \x7d" }

/-- The text with a comment behind the name of the field's kind. -/
def kindCommented : DeclarationText :=
  { contentTypes :=
      "interface ApiItemItem extends CollectionType \x7b attributes: \x7b title: String /* c */& Required; \x7d \x7d" }

theorem schema_of_relaid_fieldCommented :
    oneField.IsTidy ∧ fieldCommented.IsTidy ∧ IsRelaid oneField fieldCommented
      ∧ ∀ filter, fieldCommented.schema filter = oneField.schema filter := by
  have htidy : oneField.IsTidy := by constructor <;> decide +kernel
  have htidy' : fieldCommented.IsTidy := by constructor <;> decide +kernel
  have hrelaid : IsRelaid oneField fieldCommented := by
    have hrun :
        IsCodeRun
          "interface ApiItemItem extends CollectionType \x7b attributes: \x7b".toList
          ([] ++ [' '])
        "title: String & Required; \x7d \x7d".toList :=
          ⟨by decide, by decide, by decide +kernel⟩
    have hcomment : IsComment "// c\n".toList := @IsComment.line " c".toList (by decide)
    refine ⟨.single ?_, .refl⟩
    convert Relaid.comment hrun hcomment (by decide +kernel) using 1 <;> decide +kernel
  exact ⟨htidy, htidy', hrelaid, schema_of_relaid htidy htidy' hrelaid⟩

/-- A comment behind the name of a kind is read as part of the name, and the
field is lost. -/
theorem comment_behind_kind_drops_field :
    IsRelaid oneField kindCommented
      ∧ (oneField.schema {}).toOption.map (·.entities.map (·.attributes.map (·.name)))
        = some [["title"]]
      ∧ (kindCommented.schema {}).toOption.map
        (·.entities.map (·.attributes.map (·.name))) = some [[]] := by
  have hrun :
      IsCodeRun
        "interface ApiItemItem extends CollectionType \x7b attributes: \x7b title: String".toList
      ([' '] ++ []) "& Required; \x7d \x7d".toList :=
        ⟨by decide, by decide, by decide +kernel⟩
  have hcomment : IsComment "/* c */".toList := @IsComment.block " c ".toList (by decide)
  refine ⟨⟨.single ?_, .refl⟩, by decide +kernel, by decide +kernel⟩
  convert Relaid.comment hrun hcomment (by decide) using 1 <;> decide +kernel

end DeclarationText

end TypedContent

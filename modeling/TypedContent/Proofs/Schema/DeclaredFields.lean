import TypedContent.Proofs.Lists
import TypedContent.Proofs.Schema.ContentModel
import TypedContent.Proofs.Source.WrittenMembers

/-!
# Fields read from declaration text

The attributes block that a content model writes for an entity is read back
as what the fields of the entity declare (`field?_typeText`,
`entity?_bodyText`). Everything is shown part by part: labels and names
consist of characters that no reader reacts to, so each part of a written
type is *readable*, and so is their intersection.
-/

namespace TypedContent

open List Source Text

/-! ## Characters of names and labels -/

theorem isKeyChar_of_isNameChar {c : Char} (h : isNameChar c = true) :
    isKeyChar c = true := by
  -- every sign that a reader reacts to fails the test for names
  have hne : ∀ d, isNameChar d = false → c ≠ d := by
    rintro d hd rfl
    rw [h] at hd
    cases hd
  have hblank : isBlank c = false := by
    unfold isNameChar isNameStart Char.isAlpha Char.isUpper Char.isLower Char.isDigit at h
    simp only [Bool.or_eq_true, Bool.and_eq_true, decide_eq_true_eq, beq_iff_eq,
      ge_iff_le, UInt32.le_iff_toNat_le] at h
    simp only [isBlank, Bool.or_eq_false_iff, Bool.and_eq_false_iff,
      decide_eq_false_iff_not, beq_eq_false_iff_ne]
    change ((((65 ≤ c.toNat ∧ c.toNat ≤ 90) ∨ (97 ≤ c.toNat ∧ c.toNat ≤ 122)) ∨ c = '_')
      ∨ c = '$')
      ∨ (48 ≤ c.toNat ∧ c.toNat ≤ 57) at h
    rcases h with (((h | h) | rfl) | rfl) | h
    · omega
    · omega
    · decide
    · decide
    · omega
  refine isKeyChar_iff.2 ⟨isPlain_iff.2 ?_, hblank, hne _ rfl, hne _ rfl, hne _ rfl⟩
  simp only [isQuote, opensNesting, closesNesting, Bool.or_eq_false_iff,
    beq_eq_false_iff_ne]
  exact ⟨⟨⟨hne _ rfl, hne _ rfl⟩, hne _ rfl⟩, hne _ rfl, hne _ rfl,
    ⟨⟨⟨hne _ rfl, hne _ rfl⟩, hne _ rfl⟩, hne _ rfl⟩,
      ⟨⟨hne _ rfl, hne _ rfl⟩, hne _ rfl⟩, hne _ rfl⟩

theorem isLiteralChar_of_isLabelChar {c : Char} (h : isLabelChar c = true) :
    isLiteralChar c = true := by
  have hne : ∀ d, isLabelChar d = false → c ≠ d := by
    rintro d hd rfl
    rw [h] at hd
    cases hd
  simp [isLiteralChar, hne '\'' rfl, hne '\\' rfl]

namespace IsIdentifier

variable {s : String} (h : IsIdentifier s)

include h

theorem ne_nil : s.toList ≠ [] := by
  intro hnil
  simp [IsIdentifier, hnil] at h

theorem isNameChar {c : Char} (hc : c ∈ s.toList) : isNameChar c = true := by
  simp only [IsIdentifier, Bool.and_eq_true, all_eq_true] at h
  exact h.2 c hc

theorem isKeyChar {c : Char} (hc : c ∈ s.toList) : isKeyChar c = true :=
  isKeyChar_of_isNameChar (h.isNameChar hc)

theorem isSolid : Text.isSolid s.toList = true :=
  isSolid_of_isKeyChar h.ne_nil fun _ => h.isKeyChar

theorem isKey : IsKey none s.toList := by
  refine ⟨h.ne_nil, fun c hc => ⟨h.isKeyChar hc, fun hmem => ?_⟩⟩
  simp only [memberSeparators, mem_cons, not_mem_nil, or_false] at hmem
  rcases hmem with rfl | rfl <;> exact absurd (h.isNameChar hc) (by decide)

theorem balanced {separators : List Char}
    (hsep : separators.all (!TypedContent.isNameChar ·) = true) :
    Balanced separators s.toList := by
  refine .ofPlain fun c hc => ⟨(isKeyChar_iff.1 (h.isKeyChar hc)).1, fun hmem => ?_⟩
  have hother := all_eq_true.1 hsep c hmem
  rw [h.isNameChar hc] at hother
  cases hother

end IsIdentifier

namespace IsLabel

variable {s : String} (h : IsLabel s)

include h

theorem ne_nil : s.toList ≠ [] := by
  intro hnil
  simp [IsLabel, hnil] at h

theorem isLabelChar {c : Char} (hc : c ∈ s.toList) : isLabelChar c = true := by
  simp only [IsLabel, Bool.and_eq_true, all_eq_true] at h
  exact h.2 c hc

theorem isLiteralChar (c : Char) (hc : c ∈ s.toList) : isLiteralChar c = true :=
  isLiteralChar_of_isLabelChar (h.isLabelChar hc)

theorem isKey : IsKey (some '\'') s.toList :=
  ⟨rfl, fun c hc => by simpa [Source.isLiteralChar] using h.isLiteralChar c hc⟩

end IsLabel

/-! ## Readable texts -/

/-- A text that can be cut from its neighbours, survives trimming and holds
no opening brace. -/
structure Readable (separators cs : List Char) : Prop where
  balanced : Balanced separators cs
  solid : isSolid cs = true
  noBrace : '{' ∉ cs

namespace Readable

variable {separators : List Char}

theorem weaken {fewer cs : List Char} (h : Readable separators cs)
    (hsub : fewer ⊆ separators) :
    Readable fewer cs :=
  ⟨h.balanced.weaken hsub, h.solid, h.noBrace⟩

theorem append {left middle right : List Char} (hleft : Readable separators left)
    (hmiddle : IsPlainText separators middle) (hright : Readable separators right) :
    Readable separators (left ++ middle ++ right) := by
  refine ⟨(hleft.balanced.append (.ofPlain hmiddle)).append hright.balanced,
    isSolid_append hleft.solid hright.solid middle, fun hmem => ?_⟩
  rcases mem_append.1 hmem with hmem | hmem
  · rcases mem_append.1 hmem with hmem | hmem
    · exact hleft.noBrace hmem
    · exact absurd (hmiddle _ hmem).1 (by decide)
  · exact hright.noBrace hmem

theorem append_right {left right : List Char} (hleft : Readable separators left)
    (hright : Readable separators right) : Readable separators (left ++ right) := by
  have happend : Readable separators (left ++ [] ++ right) :=
    hleft.append (by simp [IsPlainText]) hright
  rwa [append_nil] at happend

theorem intercalate {sep : List Char} (hsep : IsPlainText separators sep)
    {xs : List (List Char)} (hne : xs ≠ []) (h : ∀ x ∈ xs, Readable separators x) :
    Readable separators (sep.intercalate xs) := by
  induction xs with
  | nil => exact absurd rfl hne
  | cons x xs ih =>
    have hx := h x mem_cons_self
    cases xs with
    | nil => simpa using hx
    | cons y ys =>
      rw [intercalate_cons_cons]
      exact hx.append hsep (ih (cons_ne_nil y ys) fun z hz => h z (mem_cons_of_mem _ hz))

/-- Brackets around readable texts, which commas separate. -/
theorem bracketed {opener closer : Char}
    (hpair : (opener, closer) ∈ [('[', ']'), ('<', '>')]) {xs : List (List Char)}
    (h : ∀ x ∈ xs, Readable [] x) :
    Readable separators (opener :: ", ".toList.intercalate xs ++ [closer]) := by
  have hinner :
      Balanced [] (", ".toList.intercalate xs) ∧ '{' ∉ ", ".toList.intercalate xs := by
    cases xs with
    | nil => exact ⟨.nil, by simp⟩
    | cons x xs =>
      have hxs : Readable [] (", ".toList.intercalate (x :: xs)) :=
        intercalate (by decide) (cons_ne_nil x xs) h
      exact ⟨hxs.balanced, hxs.noBrace⟩
  have hends :
      (opener, closer) ∈ bracketPairs ∧ isBlank opener = false ∧ isBlank closer = false
      ∧ '{' ≠ opener ∧ '{' ≠ closer := by
    simp only [mem_cons, Prod.mk.injEq, not_mem_nil, or_false] at hpair
    rcases hpair with ⟨rfl, rfl⟩ | ⟨rfl, rfl⟩ <;> decide
  obtain ⟨hpairs, hfirst, hlast, hopener, hcloser⟩ := hends
  refine ⟨.block hpairs hinner.1, isSolid_enclosed hfirst hlast _, fun hmem => ?_⟩
  rcases mem_append.1 hmem with hmem | hmem
  · rcases mem_cons.1 hmem with heq | hmem
    · exact hopener heq
    · exact hinner.2 hmem
  · exact hcloser (mem_singleton.1 hmem)

end Readable

theorem IsIdentifier.readable {s : String} (h : IsIdentifier s)
    {separators : List Char}
    (hsep : separators.all (!TypedContent.isNameChar ·) = true) :
    Readable separators s.toList :=
  ⟨h.balanced hsep, h.isSolid, fun hmem => absurd (h.isNameChar hmem) (by decide)⟩

theorem IsLabel.readable {s : String} (h : IsLabel s) {separators : List Char} :
    Readable separators (FieldForm.literalText s) := by
  have hbrace : '{' ∉ s.toList := fun hmem => absurd (h.isLabelChar hmem) (by decide)
  exact ⟨.literal h.isLiteralChar, isSolid_singleQuoted _,
    by simp [FieldForm.literalText, singleQuoted, hbrace]⟩

/-! ## Parts of types -/

/-- What separates members, parts of a type and type arguments. -/
def typeSeparators : List Char :=
  [',', ';', '&']

namespace FieldForm

theorem listText_readable {separators : List Char} {texts : List String}
    (h : ∀ s ∈ texts, IsLabel s) :
    Readable separators (listText texts) := by
  refine .bracketed (by decide) fun x hx => ?_
  obtain ⟨s, hs, rfl⟩ := mem_map.1 hx
  exact (h s hs).readable

theorem flagText_readable (b : Bool) : Readable typeSeparators (flagText b) := by
  cases b <;> exact ⟨.ofPlain (by decide), rfl, by decide⟩

theorem arguments_readable {form : FieldForm} (h : ∀ s ∈ form.labels, IsLabel s) :
    ∀ x ∈ form.arguments, Readable typeSeparators x := by
  intro x hx
  cases form with
  | value type =>
    cases type with
    | enumeration values => exact mem_singleton.1 hx ▸ listText_readable h
    | _ => cases hx
  | relation kind target =>
    rcases mem_cons.1 hx with rfl | hx
    · exact (h kind mem_cons_self).readable
    · obtain ⟨uid, huid, rfl⟩ := mem_map.1 hx
      exact (h uid (mem_cons_of_mem _ huid)).readable
  | component uid isRepeatable =>
    rcases mem_cons.1 hx with rfl | hx
    · exact (h uid mem_cons_self).readable
    · exact mem_singleton.1 hx ▸ flagText_readable isRepeatable
  | zone uids => exact mem_singleton.1 hx ▸ listText_readable h
  | media isMultiple =>
    rcases mem_cons.1 hx with rfl | hx
    · exact IsLabel.readable (by decide)
    · exact mem_singleton.1 hx ▸ flagText_readable isMultiple

end FieldForm

/-- The name of a part with its path. -/
theorem attributePath_readable {name : String} (hname : IsIdentifier name) :
    Readable typeSeparators ("Schema.Attribute.".toList ++ name.toList) := by
  have hpath : Readable typeSeparators "Schema.Attribute.".toList :=
    ⟨.ofPlain (by decide), rfl, by decide⟩
  exact hpath.append_right (hname.readable (by decide))

section Part

variable {name : String} (hname : IsIdentifier name) {args : List (List Char)}
  (hargs : ∀ x ∈ args, Readable typeSeparators x)

include hname hargs

theorem attributeText_readable : Readable typeSeparators (attributeText name args) := by
  have hpath := attributePath_readable hname
  unfold attributeText
  split
  · rwa [append_nil]
  · have hblock :
        Readable typeSeparators ('<' :: ", ".toList.intercalate args ++ ['>']) :=
      .bracketed (by decide) fun x hx => (hargs x hx).weaken (by simp)
    exact hpath.append_right hblock

/-- A part of a type is read as its name and its arguments. -/
theorem typePart?_attributeText :
    Declared.typePart? (attributeText name args) = some ⟨name, args⟩ := by
  have hsolid := (attributePath_readable hname).solid
  have hangle : '<' ∉ "Schema.Attribute.".toList ++ name.toList := by
    intro hmem
    rcases mem_append.1 hmem with hmem | hmem
    · exact absurd hmem (by decide)
    · exact absurd (hname.isKeyChar hmem) (by decide)
  have hpoint : '.' ∉ name.toList := fun hmem => absurd (hname.isKeyChar hmem) (by decide)
  have hpath : "Schema.Attribute.".toList = "Schema.Attribute".toList ++ ['.'] := by
    decide
  have hlast :
      afterLast '.' ("Schema.Attribute.".toList ++ name.toList) = name.toList := by
    rw [hpath, append_assoc]
    exact afterLast_append hpoint _
  have hgeneric : genericParts? (attributeText name args)
      = some ("Schema.Attribute.".toList ++ name.toList, args) := by
    unfold attributeText
    split
    · rename_i hnil
      rw [hnil, append_nil, genericParts?_name hsolid hangle]
    · rw [← append_assoc]
      refine genericParts?_args hsolid hangle fun x hx => ?_
      exact ⟨(hargs x hx).balanced.weaken (by decide), (hargs x hx).solid⟩
  rw [Declared.typePart?, hgeneric, Option.map_some]
  simp only [hlast, String.ofList_toList]

end Part

/-! ## Types of fields -/

/-- The constructor is a name, gives the kind and is no marker. -/
theorem FieldForm.constructorName_spec (form : FieldForm) :
    IsIdentifier form.constructorName
      ∧ Declared.constructors.contains form.constructorName = true
      ∧ String.ofList (form.constructorName.toList.map Char.toLower) = form.kind
      ∧ (form.constructorName == "Required") = false
        ∧ (form.constructorName == "Private") = false := by
  cases form with
  | value type => cases type <;> simp only [constructorName, ScalarType.constructorName,
    kind, ScalarType.kind] <;> decide
  | _ => simp only [constructorName, kind]; decide

namespace ModelField

variable {f : ModelField} (h : ∀ s ∈ f.form.labels, IsLabel s)

include h

theorem typeParts_readable {name : String} {args : List (List Char)}
    (hpart : (name, args) ∈ f.typeParts) :
    IsIdentifier name ∧ ∀ x ∈ args, Readable typeSeparators x := by
  have hmarker : ∀ marker, IsIdentifier marker →
      ∀ b : Bool, (name, args) ∈ (if b then [(marker, [])] else []) →
      IsIdentifier name ∧ ∀ x ∈ args, Readable typeSeparators x := by
    intro marker hmarker b hmem
    cases b with
    | false => cases hmem
    | true =>
      obtain ⟨rfl, rfl⟩ := Prod.mk.inj (mem_singleton.1 hmem)
      exact ⟨hmarker, by simp⟩
  rcases mem_append.1 hpart with hpart | hpart
  · rcases mem_cons.1 hpart with heq | hpart
    · obtain ⟨rfl, rfl⟩ := Prod.mk.inj heq
      exact ⟨f.form.constructorName_spec.1, FieldForm.arguments_readable h⟩
    · exact hmarker "Required" (by decide) f.isRequired hpart
  · exact hmarker "Private" (by decide) f.isPrivate hpart

theorem attributeTexts_readable :
    ∀ x ∈ f.typeParts.map (fun (name, args) => attributeText name args),
      Readable typeSeparators x := by
  intro x hx
  obtain ⟨⟨name, args⟩, hpart, rfl⟩ := mem_map.1 hx
  obtain ⟨hname, hargs⟩ := typeParts_readable h hpart
  exact attributeText_readable hname hargs

theorem typeText_readable : Readable memberSeparators f.typeText := by
  refine .intercalate (by decide) (by simp [typeParts]) fun x hx => ?_
  exact (attributeTexts_readable h x hx).weaken (by decide)

theorem mapM_typePart? :
    (parts ['&'] f.typeText).mapM Declared.typePart?
      = some (f.typeParts.map fun (name, args) => ⟨name, args⟩) := by
  have hparts : parts ['&'] f.typeText = f.typeParts.map fun (name, args) =>
      attributeText name args := by
    refine parts_intercalate (by decide) rfl (by decide) (.inr rfl) fun x hx => ?_
    have hreadable := attributeTexts_readable h x hx
    exact ⟨hreadable.balanced.weaken (by decide), hreadable.solid⟩
  rw [hparts]
  refine mapM_map_eq_some fun ⟨name, args⟩ hpart => ?_
  obtain ⟨hname, hargs⟩ := typeParts_readable h hpart
  exact typePart?_attributeText hname hargs

omit h in
/-- A marker is found exactly when it was written. -/
theorem any_typeParts {marker : String} (b : Bool)
    (hb : (marker = "Required" ∧ b = f.isRequired)
      ∨ (marker = "Private" ∧ b = f.isPrivate)) :
    (f.typeParts.map fun (name, args) => (⟨name, args⟩ : Declared.TypePart)).any
      (·.name == marker) = b := by
  obtain ⟨-, -, -, hrequired, hprivate⟩ := f.form.constructorName_spec
  rcases hb with ⟨rfl, rfl⟩ | ⟨rfl, rfl⟩ <;>
    cases hr : f.isRequired <;> cases hp : f.isPrivate <;>
      simp [typeParts, hr, hp, hrequired, hprivate]

/-- The arguments fill in what the form of the field says. -/
theorem withArguments?_arguments :
    Declared.withArguments?
      { name := f.name, kind := f.form.kind, isRequired := f.isRequired,
        isPrivate := f.isPrivate }
      ⟨f.form.constructorName, f.form.arguments⟩ = some f.declared := by
  have hunquoted : ∀ s, Declared.unquoted (FieldForm.literalText s) = s := fun s => by
    rw [Declared.unquoted, FieldForm.literalText, unquote_singleQuoted,
      String.ofList_toList]
  have hflag : ∀ b, Declared.isTrue (some (FieldForm.flagText b)) = b := fun b => by
    cases b <;> rfl
  have hlist : ∀ texts, (∀ s ∈ texts, IsLabel s) →
      (stringList (FieldForm.listText texts)).map String.ofList = texts := by
    intro texts htexts
    have htext : texts.map FieldForm.literalText
        = (texts.map String.toList).map singleQuoted := by
      rw [map_map]
      rfl
    rw [FieldForm.listText, htext, stringList_literals]
    · rw [map_map]
      exact (map_congr_left fun s _ => String.ofList_toList).trans (map_id texts)
    · intro body hbody
      obtain ⟨s, hs, rfl⟩ := mem_map.1 hbody
      exact (htexts s hs).ne_nil
    · intro body hbody
      obtain ⟨s, hs, rfl⟩ := mem_map.1 hbody
      exact (htexts s hs).isLiteralChar
  obtain ⟨name, form, isRequired, isPrivate⟩ := f
  cases form with
  | value type =>
    cases type with
    | enumeration values =>
      have hvalues := hlist values h
      simp [Declared.withArguments?, FieldForm.constructorName,
        ScalarType.constructorName, FieldForm.arguments, declared,
        ScalarType.values?, hvalues]
    | _ => rfl
  | relation kind target =>
    cases target <;>
      simp [Declared.withArguments?, FieldForm.constructorName, FieldForm.arguments,
        declared, hunquoted]
  | component uid isRepeatable =>
    simp [Declared.withArguments?, FieldForm.constructorName, FieldForm.arguments,
      declared, hunquoted, hflag]
  | zone uids =>
    have huids := hlist uids h
    simp [Declared.withArguments?, FieldForm.constructorName, FieldForm.arguments,
      declared, huids]
  | media isMultiple =>
    simp [Declared.withArguments?, FieldForm.constructorName, FieldForm.arguments,
      declared, hflag]

/-- The type of a field is read back as what the field declares. -/
theorem field?_typeText : Declared.field? f.name f.typeText = some f.declared := by
  obtain ⟨-, hconstructor, hkind, -⟩ := f.form.constructorName_spec
  have hfirst :
      ∀ rest, Declared.basePart? (⟨f.form.constructorName, f.form.arguments⟩ :: rest)
      = some ⟨f.form.constructorName, f.form.arguments⟩ := fun rest => by
    rw [Declared.basePart?, find?_cons]
    simp only [hconstructor]
    rfl
  have hbase : Declared.basePart? (f.typeParts.map fun (name, args) => ⟨name, args⟩)
      = some ⟨f.form.constructorName, f.form.arguments⟩ := hfirst _
  rw [Declared.field?, mapM_typePart? h]
  simp only [Option.bind_eq_bind, Option.bind_some, hbase, any_typeParts f.isRequired
    (.inl ⟨rfl, rfl⟩), any_typeParts f.isPrivate (.inr ⟨rfl, rfl⟩), hkind]
  exact withArguments?_arguments h

end ModelField

/-! ## Attribute blocks -/

section Members

variable {α : Type} {text : α → List Char} {members : List α}

theorem membersText_balanced (h : ∀ x ∈ members, Balanced memberSeparators (text x)) :
    Balanced [] (membersText text members) := by
  refine .append (.flatMap fun x hx => ?_) (.plain rfl (by simp))
  exact .append (.append (.plain rfl (by simp)) ((h x hx).weaken (by simp)))
    (.plain rfl (by simp))

theorem brace_not_mem_membersText
    (h : ∀ x ∈ members, Readable memberSeparators (text x)) :
    '{' ∉ membersText text members := by
  intro hmem
  rcases mem_append.1 hmem with hmem | hmem
  · obtain ⟨x, hx, hmem⟩ := mem_flatMap.1 hmem
    simp [(h x hx).noBrace] at hmem
  · exact absurd hmem (by decide)

/-- The members that were written are the members that are read. -/
theorem members_membersText {read : α → Member}
    (h : ∀ x ∈ members, Balanced memberSeparators (text x) ∧ isSolid (text x) = true)
    (hread : ∀ x ∈ members, member? (text x) = some (read x)) :
    Source.members (membersText text members) = members.map read := by
  have hparts : parts [',', ';'] (membersText text members) = members.map text :=
    parts_members (by decide) (by decide) (fun x hx => (h x hx).1) fun x hx => (h x hx).2
  calc Source.members (membersText text members)
      = members.filterMap (member? ∘ text) := by
        rw [Source.members, hparts, filterMap_map]
    _ = members.filterMap (some ∘ read) := filterMap_congr hread
    _ = members.map read := by rw [filterMap_eq_map]

end Members

/-- The block of a text that starts with its opening brace. -/
theorem block?_brace {separators inner : List Char} (h : Balanced separators inner) :
    block? '{' ('{' :: inner ++ ['}'])
      = some { before := [], opener := '{', inner, closer := '}', after := [] } := by
  have hmarks : marks ('{' :: inner ++ ['}']) = ⟨.code, '{'⟩ :: marks (inner ++ ['}']) :=
    marks_cons rfl (by decide) _
  rw [block?, hmarks, firstBlock?, if_pos ⟨rfl, rfl⟩]
  exact openedBlock?_eq rfl (by decide) h []

namespace ModelEntity

variable {e : ModelEntity} (h : e.Valid)

include h

theorem text_readable : ∀ f ∈ e.fields, Readable memberSeparators f.text := fun f hf =>
  ((h.names f hf).readable (by decide)).append (by decide)
    (ModelField.typeText_readable (h.labels f hf))

theorem members_fields :
    Source.members (membersText ModelField.text e.fields)
      = e.fields.map fun f => { name := f.name.toList, isOptional := false,
                                value := f.typeText } := by
  refine members_membersText (fun f hf => ?_) fun f hf => ?_
  · exact ⟨(text_readable h f hf).balanced, (text_readable h f hf).solid⟩
  · exact (h.names f hf).isKey.member?_solid
      (ModelField.typeText_readable (h.labels f hf)).solid

theorem fieldsText_balanced : Balanced [] (membersText ModelField.text e.fields) :=
  membersText_balanced fun f hf => (text_readable h f hf).balanced

theorem attributesText_balanced : Balanced memberSeparators e.attributesText :=
  .append (.append (.ofPlain (by decide)) (.ofPlain (by decide)))
    (.block (by decide) (fieldsText_balanced h))

theorem bodyText_balanced : Balanced [] e.bodyText :=
  membersText_balanced fun _ hx => mem_singleton.1 hx ▸ attributesText_balanced h

theorem memberValue?_bodyText :
    memberValue? e.bodyText "attributes".toList
      = some ('{' :: membersText ModelField.text e.fields ++ ['}']) := by
  have hsolid : isSolid ('{' :: membersText ModelField.text e.fields ++ ['}']) = true :=
    isSolid_enclosed rfl rfl _
  have hmembers : Source.members e.bodyText
      = [e].map fun _ => { name := "attributes".toList, isOptional := false,
                           value := '{' :: membersText ModelField.text e.fields
                             ++ ['}'] } := by
    refine members_membersText (fun x hx => ?_) fun x hx => ?_
    · rw [mem_singleton.1 hx]
      exact ⟨attributesText_balanced h, isSolid_append rfl hsolid _⟩
    · have hkey : IsKey none "attributes".toList := by decide
      rw [mem_singleton.1 hx]
      exact hkey.member?_solid hsolid
  rw [memberValue?, hmembers]
  rfl

/-- An interface is read back as what its entity declares, once its UID is
known. -/
theorem entity?_bodyText {registry : Keyed String}
    (huid : registry.find? e.interfaceName = some e.uid) :
    Declared.Interface.entity? registry
      { name := e.interfaceName, kind := e.kind, body := e.bodyText }
      = some e.declared := by
  have hfields : (Source.members (membersText ModelField.text e.fields)).filterMap
      (fun m => Declared.field? (String.ofList m.name) m.value)
        = e.fields.map ModelField.declared := by
    rw [members_fields h, filterMap_map]
    calc e.fields.filterMap _
        = e.fields.filterMap (some ∘ ModelField.declared) := by
          refine filterMap_congr fun f hf => ?_
          simp only [Function.comp_apply, String.ofList_toList]
          exact ModelField.field?_typeText (h.labels f hf)
      _ = e.fields.map ModelField.declared := by rw [filterMap_eq_map]
  rw [Declared.Interface.entity?, memberValue?_bodyText h]
  simp only [Option.bind_eq_bind, Option.bind_some,
    block?_brace (fieldsText_balanced h), huid, Option.getD_some, hfields]
  rfl

end ModelEntity

end TypedContent

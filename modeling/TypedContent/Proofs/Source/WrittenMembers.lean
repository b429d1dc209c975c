import TypedContent.Proofs.Source.SelfContained
import TypedContent.Proofs.Source.Statements

/-!
# Members that are read back

The body of an object may be written in many ways: comments stand in front
of members, a key has quotes or not, a member is `readonly` or optional, and
a comma or a semicolon follows it. `WrittenMember` is a member with the
choices that were made. Its value is any text that is closed in itself, so
it may be full of colons, question marks, quotes and separators.

Each written member is cut off by its separator
(`WrittenMember.selfContained_entry`) and read as the member it is
(`WrittenMember.member?_entry`). A body is then read one member after the
other (`WrittenMember.members_append`).
-/

namespace TypedContent

namespace Source

open List Option Text

/-! ## Keys -/

/-- What may be written as a key. Without quotes it is a name of characters
that mean nothing around a key, as every identifier is; between single or
double quotes it is any text without that quote and without escapes. -/
def IsKey : Option Char → List Char → Prop
  | none, name => name ≠ [] ∧ ∀ c ∈ name, isKeyChar c = true ∧ c ∉ memberSeparators
  | some quote, name => isKeyQuote quote = true ∧ ∀ c ∈ name, c ≠ quote ∧ c ≠ '\\'

instance : (quote : Option Char) → (name : List Char) → Decidable (IsKey quote name)
  | none, name =>
    inferInstanceAs (Decidable (name ≠ [] ∧ ∀ c ∈ name, isKeyChar c = true
      ∧ c ∉ memberSeparators))
  | some quote, name =>
    inferInstanceAs (Decidable (isKeyQuote quote = true
      ∧ ∀ c ∈ name, c ≠ quote ∧ c ≠ '\\'))

/-- A name with its quotes. -/
def keyText : Option Char → List Char → List Char
  | none, name => name
  | some quote, name => quote :: (name ++ [quote])

def optionalMark (isOptional : Bool) : List Char :=
  if isOptional then ['?'] else []

theorem isMark_optionalMark (isOptional : Bool) :
    IsMark isOptional (optionalMark isOptional) := by
  cases isOptional with
  | false => exact .absent fun c hc => nomatch hc
  | true =>
    have hnone : ∀ c ∈ ([] : List Char), isBlank c = true := fun c hc => nomatch hc
    exact .present hnone hnone

section PlainKey

variable {name : List Char} (hname : name ≠ []) (hchars : ∀ c ∈ name, isKeyChar c = true)

include hname hchars

/-- The question mark behind a name is no part of it. -/
theorem plainName_optionalMark (isOptional : Bool) :
    plainName (name ++ optionalMark isOptional) = name
      ∧ isMarked (name ++ optionalMark isOptional) = isOptional := by
  have hsolid := isSolid_of_isKeyChar hname hchars
  cases isOptional with
  | false =>
    have hmark : ['?'].isSuffixOf? name = none :=
      isSuffixOf?_singleton_eq_none fun hlast =>
        (isKeyChar_iff.1 (hchars '?' (mem_of_getLast? hlast))).2.2.2.1 rfl
    have htext : name ++ optionalMark false = name := append_nil name
    rw [htext, plainName, isMarked, trim_of_isSolid hsolid, hmark]
    exact ⟨rfl, rfl⟩
  | true =>
    have hmark : ['?'].isSuffixOf? (name ++ ['?']) = some name :=
      isSuffixOf?_eq_some_iff_append_eq.2 rfl
    have htrim : trim (name ++ ['?']) = name ++ ['?'] := by
      have hends :=
        trim_of_isSolid (isSolid_append hsolid (show isSolid ['?'] = true from rfl) [])
      rwa [append_nil] at hends
    have htext : name ++ optionalMark true = name ++ ['?'] := rfl
    rw [htext, plainName, isMarked, htrim, hmark, map_some, getD_some,
      trim_of_isSolid hsolid]
    exact ⟨rfl, rfl⟩

omit hname in
theorem notMem_plainKey {c : Char} (hc : c ∉ ['?']) (hkey : isKeyChar c = false)
    (isOptional : Bool) :
    c ∉ name ++ optionalMark isOptional := by
  rw [mem_append, not_or]
  refine ⟨fun hmem => ?_, ?_⟩
  · rw [hchars c hmem] at hkey
    cases hkey
  · cases isOptional
    · exact not_mem_nil
    · exact hc

end PlainKey

namespace IsKey

variable {quote : Option Char} {name : List Char} (h : IsKey quote name)

include h

theorem inert : Inert memberSeparators (keyText quote name) := by
  cases quote with
  | none =>
    exact .of_isPlainText fun c hc => ⟨(isKeyChar_iff.1 (h.2 c hc).1).1, (h.2 c hc).2⟩
  | some quote =>
    have hbackslash : quote ≠ '\\' := by
      rintro rfl
      cases h.1
    exact .of_quoted (isKeyQuote_cases h.1).2.2 (isClosedLiteral_append hbackslash h.2)

/-- A key does not start with a gap. -/
theorem exists_keyText :
    ∃ c cs, keyText quote name = c :: cs ∧ isBlank c = false ∧ c ≠ '/' := by
  cases quote with
  | none =>
    obtain ⟨c, cs, rfl⟩ := exists_cons_of_ne_nil h.1
    obtain ⟨hplain, hblank, -⟩ := isKeyChar_iff.1 (h.2 c mem_cons_self).1
    exact ⟨c, cs, rfl, hblank, (isPlain_iff.1 hplain).2.1⟩
  | some quote =>
    obtain ⟨hblank, -, hisQuote⟩ := isKeyQuote_cases h.1
    refine ⟨quote, name ++ [quote], rfl, hblank, ?_⟩
    rintro rfl
    cases hisQuote

theorem readonly_isPrefixOf? (isOptional : Bool) (rest : List Char) :
    "readonly ".toList.isPrefixOf? (keyText quote name
      ++ (optionalMark isOptional ++ ':' :: rest)) = none := by
  cases quote with
  | none =>
    have hspace : ' ' ∉ name ++ optionalMark isOptional ++ [':'] := by
      rw [mem_append, not_or]
      exact ⟨notMem_plainKey (fun c hc => (h.2 c hc).1) (by decide) rfl isOptional, by
        decide⟩
    have hnone : "readonly ".toList.isPrefixOf?
        (name ++ optionalMark isOptional ++ [':']) = none := by
      rw [eq_none_iff_forall_ne_some]
      intro more heq
      rw [isPrefixOf?_eq_some_iff_append_eq] at heq
      exact hspace (heq ▸ mem_append_left more (by decide))
    -- the colon comes before any blank, and what follows it has no say
    have hcolon : ∃ c ∈ name ++ optionalMark isOptional ++ [':'],
        c ∉ "readonly ".toList :=
      ⟨':', mem_append_right _ mem_cons_self, by decide⟩
    have happend := isPrefixOf?_append hcolon rest
    rw [hnone, append_assoc, append_assoc] at happend
    exact happend
  | some quote =>
    have hquote := h.1
    simp only [isKeyQuote, Bool.or_eq_true, beq_iff_eq] at hquote
    rcases hquote with rfl | rfl <;> rfl

/-- A written key with its question mark is one of the forms that are
read. -/
theorem exists_keyForm (isOptional : Bool) (value : List Char) :
    ∃ key written, KeyForm (keyText quote name
      ++ (optionalMark isOptional ++ ':' :: value)) key written isOptional value
      ∧ unquote written = name ∧ (startsKeyQuote key || isPlainKey name) = true := by
  cases quote with
  | none =>
    have hchars : ∀ c ∈ name, isKeyChar c = true := fun c hc => (h.2 c hc).1
    obtain ⟨hplain, hmarked⟩ := plainName_optionalMark h.1 hchars isOptional
    have hcolon : ':' ∉ name ++ optionalMark isOptional :=
      notMem_plainKey hchars (by decide) rfl isOptional
    have hquote : startsKeyQuote (name ++ optionalMark isOptional) = false := by
      obtain ⟨c, cs, rfl⟩ := exists_cons_of_ne_nil h.1
      have hc := (isPlain_iff.1 (isKeyChar_iff.1 (hchars c mem_cons_self)).1).1
      cases hkey : isKeyQuote c with
      | false => exact hkey
      | true =>
        rw [(isKeyQuote_cases hkey).2.2] at hc
        cases hc
    have hform := @KeyForm.plain _ value hcolon hquote
    rw [hplain, hmarked, append_assoc] at hform
    exact ⟨_, name, hform, unquote_name h.1 hchars,
      by rw [isPlainKey_name h.1 hchars, Bool.or_true]⟩
  | some quote =>
    have hbackslash : quote ≠ '\\' := by
      rintro rfl
      cases h.1
    have hbody : IsClosedLiteral quote (name ++ [quote]) :=
      isClosedLiteral_append hbackslash h.2
    have hstarts : startsKeyQuote (quote :: (name ++ [quote])) = true := h.1
    exact ⟨_, _, .quoted h.1 hbody (isMark_optionalMark isOptional),
      unquote_quoted (isKeyQuote_cases h.1).2.2 name,
      by rw [hstarts, Bool.true_or]⟩

/-- The key is read with its question mark, and what follows the colon is
the value. -/
theorem namedMember?_keyed (isOptional : Bool) {value : List Char} (hne : value ≠ [])
    (htrim : trim value = value) :
    (keyed? (keyText quote name
      ++ (optionalMark isOptional ++ (": ".toList ++ value)))).bind namedMember?
      = some { name, isOptional, value } := by
  obtain ⟨key, written, hform, hname, hkey⟩ := h.exists_keyForm isOptional (' ' :: value)
  have hkeyed :
      keyed? (keyText quote name ++ (optionalMark isOptional ++ (": ".toList ++ value)))
      = some (key, written, isOptional, ' ' :: value) := keyed?_eq_some_iff.2 hform
  rw [hkeyed, bind_some, namedMember?, hname, hkey, trim_space, htrim,
    if_pos (by simpa using hne)]

/-- An entry that starts with its key. -/
theorem entryText_keyed (isOptional : Bool) (rest : List Char) :
    entryText (keyText quote name ++ (optionalMark isOptional ++ ':' :: rest))
      = keyText quote name ++ (optionalMark isOptional ++ ':' :: rest) := by
  obtain ⟨c, cs, hcons, hblank, hslash⟩ := h.exists_keyText
  have hnone := h.readonly_isPrefixOf? isOptional rest
  rw [hcons, cons_append] at hnone ⊢
  rw [entryText, dropGap_solid hblank hslash, hnone, getD_none, trimStart_cons hblank]

theorem member?_solid {value : List Char} (hvalue : isSolid value = true) :
    member? (keyText quote name ++ ": ".toList ++ value)
      = some { name, isOptional := false, value } := by
  have hread :=
    h.namedMember?_keyed false (ne_nil_of_isSolid hvalue) (trim_of_isSolid hvalue)
  have hentry := h.entryText_keyed false (' ' :: value)
  rw [append_assoc, member?_eq_keyed?]
  exact (congrArg (fun entry => (keyed? entry).bind namedMember?) hentry).trans hread

end IsKey

/-! ## Written members -/

/-- A member and how it is written. -/
structure WrittenMember extends Member where
  /-- Blanks and comments in front of the member. -/
  lead : List Char
  isReadonly : Bool
  /-- The quote around the key. -/
  quote : Option Char
  separator : Char
  lead_gap : ∀ m ∈ marks lead, m.isGap = true := by decide
  lead_closed : AllClosed lead := by decide
  isKey : IsKey quote name := by decide
  value_ne_nil : value ≠ [] := by decide
  trim_value : trim value = value := by decide
  value_selfContained : SelfContained memberSeparators value := by decide
  separator_mem : separator ∈ memberSeparators := by decide

namespace WrittenMember

variable (w : WrittenMember)

def modifier : List Char :=
  if w.isReadonly then "readonly ".toList else []

/-- The member from its key on. -/
def keyed : List Char :=
  keyText w.quote w.name ++ (optionalMark w.isOptional ++ (": ".toList ++ w.value))

def entry : List Char :=
  w.lead ++ (w.modifier ++ w.keyed)

def text : List Char :=
  w.entry ++ [w.separator]

theorem inert_lead : Inert memberSeparators w.lead := by
  refine ⟨w.lead_closed, fun c hc => ?_⟩
  have hmem : (⟨.code, c⟩ : Marked) ∈ marks w.lead := by
    rw [marks_eq_lexemes]
    exact mem_flatMap.2 ⟨.code c, hc, mem_cons_self⟩
  have hblank : isBlank c = true := by simpa [Marked.isGap] using w.lead_gap _ hmem
  obtain ⟨hopens, hcloses⟩ := opensNesting_of_isBlank hblank
  refine ⟨(isQuote_of_isBlank hblank).2, hopens, hcloses, fun hsep => ?_⟩
  simp only [memberSeparators, mem_cons, not_mem_nil, or_false] at hsep
  rcases hsep with rfl | rfl <;> cases hblank

theorem inert_modifier : Inert memberSeparators w.modifier := by
  rw [modifier]
  split <;> exact .of_isPlainText (by decide)

/-- Nothing in a written member reaches beyond it. -/
theorem selfContained_entry : SelfContained memberSeparators w.entry := by
  have hmark : Inert memberSeparators (optionalMark w.isOptional) := by
    cases w.isOptional <;> exact .of_isPlainText (by decide)
  have hcolon : Inert memberSeparators ": ".toList := .of_isPlainText (by decide)
  have hvalue :=
    hmark.selfContained_append (hcolon.selfContained_append w.value_selfContained)
  have hkeyed : SelfContained memberSeparators w.keyed :=
    w.isKey.inert.selfContained_append hvalue
  exact w.inert_lead.selfContained_append (w.inert_modifier.selfContained_append hkeyed)

/-- Comments and `readonly` are dropped from the front of a member. -/
theorem entryText_entry : entryText w.entry = w.keyed := by
  obtain ⟨c, cs, hcons, hblank, hslash⟩ := w.isKey.exists_keyText
  have hkeyed :
      w.keyed
        = c :: (cs ++ (optionalMark w.isOptional ++ (": ".toList ++ w.value))) := by
    rw [keyed, hcons, cons_append]
  have hstart : trimStart w.keyed = w.keyed := by rw [hkeyed, trimStart_cons hblank]
  -- the gap in front ends where the member starts, as neither `readonly`
  -- nor a key starts with one
  have hlead : dropGap w.lead = [] := by
    rw [dropGap, dropWhile_eq_nil_iff.2 w.lead_gap]
    rfl
  have hgap : dropGap (w.modifier ++ w.keyed) = w.modifier ++ w.keyed := by
    rw [modifier]
    split
    · exact dropGap_solid (by decide) (by decide) _
    · rw [nil_append, hkeyed, dropGap_solid hblank hslash]
  have hentry : dropGap w.entry = w.modifier ++ w.keyed := by
    rw [entry, dropGap_append (w.inert_lead.marks_append _), if_pos hlead]
    exact hgap
  rw [entryText, hentry, modifier]
  split
  · have hreadonly :
        "readonly ".toList.isPrefixOf? ("readonly ".toList ++ w.keyed) = some w.keyed :=
      isPrefixOf?_eq_some_iff_append_eq.2 rfl
    rw [hreadonly, getD_some, hstart]
  · have hnone : "readonly ".toList.isPrefixOf? w.keyed = none :=
      w.isKey.readonly_isPrefixOf? w.isOptional _
    rw [nil_append, hnone, getD_none, hstart]

theorem member?_entry : member? w.entry = some w.toMember := by
  rw [member?_eq_keyed?, w.entryText_entry]
  exact w.isKey.namedMember?_keyed w.isOptional w.value_ne_nil w.trim_value

/-- The first member of a body is read off with its separator. -/
theorem members_append (rest : List Char) :
    members (w.text ++ rest) = w.toMember :: members rest := by
  rw [members_eq, text, append_assoc, singleton_append,
    w.selfContained_entry.segments_append_cons (by decide) w.separator_mem,
    filterMap_cons, member?_trim, w.member?_entry, members_eq]

end WrittenMember

theorem members_flatMap_text (ws : List WrittenMember) :
    members (ws.flatMap WrittenMember.text) = ws.map WrittenMember.toMember := by
  induction ws with
  | nil => rfl
  | cons w ws ih => rw [flatMap_cons, w.members_append, ih, map_cons]

/-- **Written members are read back.** However the members of a body are
written, they are read with their names, their question marks and their
values, in their order. The value of a key is that of the first member with
this name. -/
theorem written_members_read_back (ws : List WrittenMember) :
    members (ws.flatMap WrittenMember.text) = ws.map WrittenMember.toMember
      ∧ ∀ key value, memberValue? (ws.flatMap WrittenMember.text) key = some value
        ↔ ∃ (before after : List WrittenMember) (w : WrittenMember),
          ws = before ++ w :: after ∧ w.name = key
          ∧ w.value = value ∧ ∀ v ∈ before, v.name ≠ key := by
  refine ⟨members_flatMap_text ws, fun key value => ?_⟩
  rw [memberValue?, members_flatMap_text, find?_map, Option.map_map, map_eq_some_iff]
  constructor
  · rintro ⟨w, hfound, rfl⟩
    obtain ⟨hname, before, after, rfl, hbefore⟩ := find?_eq_some_iff_append.1 hfound
    exact ⟨before, after, w, rfl, by
      simpa using hname, rfl, fun v hv => by simpa using hbefore v hv⟩
  · rintro ⟨before, after, w, rfl, hname, rfl, hbefore⟩
    refine ⟨w, find?_eq_some_iff_append.2
      ⟨by simpa using hname, before, after, rfl, fun v hv => ?_⟩, rfl⟩
    simpa using hbefore v hv

/-- A comment that holds a member, a value with separators in brackets and
in a literal, a key that looks like a member, and a name that comes
twice. -/
def mixedMembers : List WrittenMember :=
  [{ name := "größe".toList, isOptional := true,
     value := "(x) => M<'a;b', [1, 2]>".toList,
     lead := "// a: 1,\n".toList, isReadonly := true, quote := none, separator := ';' },
   { name := "b: c?".toList, isOptional := false, value := "1 /* ; */".toList,
     lead := [], isReadonly := false, quote := some '\'', separator := ',' },
   { name := "größe".toList, isOptional := false, value := "x".toList,
     lead := " ".toList, isReadonly := false, quote := some '"', separator := ';' }]

theorem written_members_read_back_mixed :
    mixedMembers.flatMap WrittenMember.text
        = "// a: 1,\nreadonly größe?: (x) => M<'a;b', [1, 2]>;'b: c?': 1 /* ; */, \"größe\": x;".toList
      ∧ (members (mixedMembers.flatMap WrittenMember.text)).map Member.name
        = ["größe".toList, "b: c?".toList, "größe".toList]
      ∧ memberValue? (mixedMembers.flatMap WrittenMember.text) "größe".toList
        = some "(x) => M<'a;b', [1, 2]>".toList := by
  obtain ⟨hmembers, hvalue⟩ := written_members_read_back mixedMembers
  refine ⟨by decide +kernel, ?_, ?_⟩
  · rw [hmembers]
    rfl
  · exact (hvalue _ _).2 ⟨[], _, _, rfl, rfl, rfl, fun v hv => nomatch hv⟩

end Source

end TypedContent

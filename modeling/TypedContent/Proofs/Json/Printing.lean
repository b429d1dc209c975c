import Mathlib.Data.List.Basic
import TypedContent.Json.Printer
import TypedContent.Json.Reader

/-!
# Printed values are read back

The text that the printer makes of a value is read as the document that
spells the value (`Value.document`), without anything left over
(`parse?_render`). Different values have different documents, so different
values have different texts (`render_injective`).

Reading is followed along the recursion of the printer, for a text that is
followed by more text. What may follow is the end, a comma or a closing
bracket (`EndsValue`); a numeral would swallow a digit. The fuel of the
reader is bounded by the length of the text alone, twice the characters of a
value and one more for the items of a list.
-/

namespace TypedContent

open List

namespace Json

variable {n : Nat} {c : Char} {cs ds : List Char}

/-! ## Strings -/

/-- Whether a character is printed by its code: a control character that no
letter stands for. -/
def isPrintedByCode (c : Char) : Bool :=
  c.toNat < 0x20 && !(['\x08', '\x0c', '\n', '\r', '\t'].contains c)

/-- What a printed character is read as. -/
def printedUnit (c : Char) : StringUnit :=
  if isPrintedByCode c then .code c.toNat else .char c

/-- What a printed string is read as. -/
def printedUnits (s : String) : List StringUnit :=
  s.toList.map printedUnit

theorem hexNumber?_control : ∀ n < 0x20,
    Text.hexNumber? ['0', '0', Nat.digitChar (n / 16), Nat.digitChar (n % 16)]
      = some n := by
  decide

theorem readString?_escapeChar (c : Char) (cs : List Char) :
    readString? (escapeChar c ++ cs) = (readString? cs).map fun p =>
      (printedUnit c :: p.1, p.2) := by
  unfold escapeChar
  split
  iterate 7 · cases h : readString? cs
    <;> simp [readString?, shortEscape?, h, printedUnit, isPrintedByCode]
  · rename_i h1 h2 h3 h4 h5 h6 h7
    split
    · rename_i hcontrol
      have hcode : isPrintedByCode c = true := by simp_all [isPrintedByCode]
      cases h :
        readString? cs <;> simp [readString?, hexNumber?_control c.toNat hcontrol, h,
          printedUnit, hcode]
    · rename_i hplain
      have hcode : isPrintedByCode c = false := by simp_all [isPrintedByCode]
      rw [singleton_append, readString?.eq_5 c cs h1 (fun _ _ _ _ _ h _ => h2 h)
        (fun _ _ h _ => h2 h)]
      cases h : readString? cs <;> simp_all [printedUnit]

theorem readString?_escape (cs rest : List Char) :
    readString? (cs.flatMap escapeChar ++ '"' :: rest)
      = some (cs.map printedUnit, rest) := by
  induction cs with
  | nil => rfl
  | cons c cs ih => simp [List.append_assoc, readString?_escapeChar, ih]

/-- A code below the surrogates stands for itself, whatever follows. -/
theorem decodeUnits?_code (h : n < 0xD800) (units : List StringUnit) :
    decodeUnits? (.code n :: units) = (decodeUnits? units).map (Char.ofNat n :: ·) := by
  have hhigh : isHighSurrogate n = false := by simp [isHighSurrogate]; omega
  have hlow : isLowSurrogate n = false := by simp [isLowSurrogate]; omega
  cases units with
  | nil => simp [decodeUnits?, hhigh, hlow]
  | cons unit units => cases unit <;> simp [decodeUnits?, hhigh, hlow]

theorem decodeUnits?_printed (cs : List Char) :
    decodeUnits? (cs.map printedUnit) = some cs := by
  induction cs with
  | nil => rfl
  | cons c cs ih =>
    rw [List.map_cons, printedUnit]
    split
    · rename_i hcode
      have hcontrol : c.toNat < 0xD800 := by
        simp only [isPrintedByCode, Bool.and_eq_true, decide_eq_true_eq] at hcode
        omega
      rw [decodeUnits?_code hcontrol, ih, Option.map_some, Char.ofNat_toNat]
    · rw [decodeUnits?, ih, Option.map_some]

theorem decodeString?_printedUnits (s : String) :
    decodeString? (printedUnits s) = some s := by
  rw [decodeString?, printedUnits, decodeUnits?_printed, Option.map_some,
    String.ofList_toList]

theorem printedUnits_injective : Function.Injective printedUnits := by
  intro s t h
  have hdecoded := congrArg decodeString? h
  rwa [decodeString?_printedUnits, decodeString?_printedUnits,
    Option.some.injEq] at hdecoded

theorem toList_renderString (s : String) (rest : List Char) :
    (renderString s).toList ++ rest
      = '"' :: (s.toList.flatMap escapeChar ++ '"' :: rest) := by
  simp [renderString]

/-! ## What follows a value -/

/-- What may stand behind a value: nothing, a comma or a closing bracket. -/
def EndsValue (rest : List Char) : Prop :=
  ∀ c ∈ rest.head?, c = ',' ∨ c = ']' ∨ c = '}'

theorem endsValue_nil : EndsValue [] := by simp [EndsValue]

theorem endsValue_comma (cs : List Char) : EndsValue (',' :: cs) := by simp [EndsValue]

theorem endsValue_bracket (cs : List Char) : EndsValue (']' :: cs) := by simp [EndsValue]

theorem endsValue_brace (cs : List Char) : EndsValue ('}' :: cs) := by simp [EndsValue]

/-! ## Numbers -/

/-- The decimal digits of a number. -/
def decimalDigits (n : Nat) : List Nat :=
  (Nat.toDigits 10 n).map (·.toNat - 48)

/-- The numeral that a number is printed as. -/
def Number.numeral (n : Number) : Numeral :=
  { isNegative := decide (n.mantissa < 0), whole := decimalDigits n.mantissa.natAbs,
    exponent := n.exponent }

theorem digitsValue_decimalDigits (n : Nat) : digitsValue (decimalDigits n) = n := by
  rw [digitsValue, decimalDigits, List.foldl_map]
  exact Nat.ofDigitChars_ten_toDigits

theorem Number.number_numeral (n : Number) : n.numeral.number = n := by
  obtain ⟨mantissa, exponent⟩ := n
  have hsize : (if mantissa < 0 then -(mantissa.natAbs : Int) else mantissa.natAbs)
      = mantissa := by
    split <;> omega
  simp only [numeral, Numeral.number, decide_eq_true_eq, List.append_nil,
    digitsValue_decimalDigits, hsize, List.length_nil, Int.cast_ofNat_Int, Int.sub_zero]

theorem isDigit_of_mem_toDigits (h : c ∈ Nat.toDigits 10 n) : c.isDigit = true :=
  Nat.isDigit_of_mem_toDigits (by decide) (by decide) h

/-- Digits end where something else stands. -/
theorem spanDigits_toDigits (n : Nat) {rest : List Char}
    (hrest : ∀ c ∈ rest.head?, c.isDigit = false) :
    spanDigits (Nat.toDigits 10 n ++ rest) = (decimalDigits n, rest) := by
  have hall : ∀ c ∈ Nat.toDigits 10 n, c.isDigit = true :=
    fun c => isDigit_of_mem_toDigits
  have htake : rest.takeWhile Char.isDigit = [] ∧ rest.dropWhile Char.isDigit = rest := by
    cases rest with
    | nil => simp
    | cons c cs => simp [hrest c rfl]
  rw [spanDigits, List.takeWhile_append_of_pos hall, List.dropWhile_append_of_pos hall,
    htake.1, htake.2, List.append_nil, decimalDigits]

/-- The first digit is a zero for the number zero only. -/
theorem toDigits_ne_zero_cons (h : n ≠ 0) (cs : List Char) :
    Nat.toDigits 10 n ≠ '0' :: cs := by
  induction n using Nat.strongRecOn generalizing cs with
  | _ n ih =>
    by_cases hsmall : n < 10
    · rw [Nat.toDigits_of_lt_base hsmall]
      have hdigit : ∀ m < 10, m ≠ 0 → Nat.digitChar m ≠ '0' := by decide
      exact fun heq => hdigit n hsmall h (List.cons.inj heq).1
    · rw [Nat.toDigits_of_base_le (by decide) (by omega)]
      have hquotient := ih (n / 10) (by omega) (by omega)
      cases hdigits : Nat.toDigits 10 (n / 10) with
      | nil => exact absurd hdigits Nat.toDigits_ne_nil
      | cons c ds =>
        intro heq
        exact hquotient ds (by rw [hdigits, (List.cons.inj heq).1])

theorem readWhole?_toDigits (n : Nat) {rest : List Char}
    (hrest : ∀ c ∈ rest.head?, c.isDigit = false) :
    readWhole? (Nat.toDigits 10 n ++ rest) = some (decimalDigits n, rest) := by
  by_cases hzero : n = 0
  · subst hzero
    have hnext : rest.head?.any Char.isDigit = false := by cases rest <;> simp_all
    simp [Nat.toDigits_zero, readWhole?, hnext, decimalDigits]
  · have hspan := spanDigits_toDigits n hrest
    have hne : decimalDigits n ≠ [] := by simp [decimalDigits]
    unfold readWhole?
    split
    · rename_i cs heq
      cases hdigits : Nat.toDigits 10 n with
      | nil => exact absurd hdigits Nat.toDigits_ne_nil
      | cons c ds =>
        rw [hdigits] at heq
        exact absurd (hdigits.trans (by rw [(List.cons.inj heq).1]))
          (toDigits_ne_zero_cons hzero ds)
    · simp [hspan, hne]

/-- The sign of an integer, as it is printed. -/
def signOf (n : Int) : List Char :=
  if n < 0 then ['-'] else []

theorem toList_decimal (n : Int) :
    (Text.decimal n).toList = signOf n ++ Nat.toDigits 10 n.natAbs := by
  cases n with
  | ofNat n => simp [Text.decimal, signOf]
  | negSucc n => simp [Text.decimal, signOf, Int.negSucc_lt_zero]

/-- The exponent of a number, as it is printed. -/
def exponentText (n : Int) : List Char :=
  if n = 0 then [] else 'e' :: (signOf n ++ Nat.toDigits 10 n.natAbs)

theorem Number.toList_render (n : Number) :
    n.render.toList = signOf n.mantissa
      ++ (Nat.toDigits 10 n.mantissa.natAbs ++ exponentText n.exponent) := by
  rw [render, String.toList_append, toList_decimal, List.append_assoc, exponentText]
  split
  · rfl
  · rw [String.toList_append, toList_decimal]
    rfl

theorem ne_of_isDigit {d : Char} (hc : c.isDigit = true) (hd : d.isDigit = false) :
    c ≠ d := by
  rintro rfl
  exact Bool.false_ne_true (hd.symm.trans hc)

theorem exists_toDigits_cons (n : Nat) :
    ∃ c cs, Nat.toDigits 10 n = c :: cs ∧ c.isDigit = true := by
  cases hdigits : Nat.toDigits 10 n with
  | nil => exact absurd hdigits Nat.toDigits_ne_nil
  | cons c cs =>
    exact ⟨c, cs, rfl, isDigit_of_mem_toDigits (hdigits ▸ List.mem_cons_self)⟩

theorem readSign_signOf (n : Int) (rest : List Char) :
    readSign (signOf n ++ (Nat.toDigits 10 n.natAbs ++ rest))
      = (decide (n < 0), Nat.toDigits 10 n.natAbs ++ rest) := by
  obtain ⟨c, cs, hdigits, hdigit⟩ := exists_toDigits_cons n.natAbs
  have hminus : c ≠ '-' := ne_of_isDigit hdigit rfl
  have hplus : c ≠ '+' := ne_of_isDigit hdigit rfl
  rw [hdigits]
  unfold signOf
  split
  · rename_i hneg
    simp [readSign, hneg]
  · rename_i hpos
    simp [readSign, hpos, hminus, hplus]

variable {rest : List Char}

theorem EndsValue.not_isDigit (h : EndsValue rest) :
    ∀ c ∈ rest.head?, c.isDigit = false := by
  intro c hc
  rcases h c hc with rfl | rfl | rfl <;> rfl

theorem readExponent?_exponentText (n : Int) (hrest : EndsValue rest) :
    readExponent? (exponentText n ++ rest) = some (n, rest) := by
  unfold exponentText
  split
  · rename_i hzero
    subst hzero
    cases rest with
    | nil => rfl
    | cons c cs => rcases hrest c rfl with rfl | rfl | rfl <;> rfl
  · have hsize : (if n < 0 then -(n.natAbs : Int) else n.natAbs) = n := by split <;> omega
    have hne : decimalDigits n.natAbs ≠ [] := by simp [decimalDigits]
    rw [List.cons_append, List.append_assoc, readExponent?]
    simp only [Char.isValue, BEq.rfl, Char.reduceBEq, Bool.or_false, reduceIte,
      readSign_signOf, spanDigits_toDigits _ hrest.not_isDigit, hne, decide_eq_true_eq,
      digitsValue_decimalDigits, hsize]

theorem readFraction?_exponentText (n : Int) (hrest : EndsValue rest) :
    readFraction? (exponentText n ++ rest) = some ([], exponentText n ++ rest) := by
  have hpoint : ∀ cs, exponentText n ++ rest ≠ '.' :: cs := by
    unfold exponentText
    split
    · rintro cs rfl
      simp [EndsValue] at hrest
    · simp
  unfold readFraction?
  split
  · rename_i cs heq
    exact absurd heq (hpoint cs)
  · rfl

theorem readNumeral?_render (n : Number) (hrest : EndsValue rest) :
    readNumeral? (n.render.toList ++ rest) = some (n.numeral, rest) := by
  have hnext : ∀ c ∈ (exponentText n.exponent ++ rest).head?, c.isDigit = false := by
    unfold exponentText
    split
    · exact hrest.not_isDigit
    · simp
  have hwhole := readWhole?_toDigits n.mantissa.natAbs hnext
  rw [Number.toList_render, List.append_assoc, List.append_assoc]
  by_cases hneg : n.mantissa < 0
  · simp [readNumeral?, signOf, hneg, hwhole, readFraction?_exponentText _ hrest,
      readExponent?_exponentText _ hrest, Number.numeral]
  · obtain ⟨c, cs, hdigits, hdigit⟩ := exists_toDigits_cons n.mantissa.natAbs
    have hminus : c ≠ '-' := ne_of_isDigit hdigit rfl
    rw [hdigits, List.cons_append] at hwhole
    simp [readNumeral?, signOf, hneg, hdigits, hminus, hwhole,
      readFraction?_exponentText _ hrest, readExponent?_exponentText _ hrest,
      Number.numeral]

/-! ## Documents -/

namespace Value

variable {fields : List (String × String)}

mutual

/-- The document that a value is printed as. -/
def document : Value → Document
  | null => .null
  | bool b => .bool b
  | number n => .number n.numeral
  | string s => .string (printedUnits s)
  | array items => .array (documentItems items)
  | object fields => .object (documentFields fields)

def documentItems : List Value → List Document
  | [] => []
  | item :: items => document item :: documentItems items

def documentFields : List (String × Value) → List (List StringUnit × Document)
  | [] => []
  | (name, value) :: fields =>
    (printedUnits name, document value) :: documentFields fields

end

mutual

theorem document_inj : ∀ v w : Value, v.document = w.document → v = w
  | null, w, h => by cases w <;> simp_all [document]
  | bool b, w, h => by cases w <;> simp_all [document]
  | number n, w, h => by
      cases w with
      | number m =>
        simp only [document, Document.number.injEq] at h
        rw [← n.number_numeral, h, m.number_numeral]
      | _ => simp [document] at h
  | string s, w, h => by
      cases w with
      | string t =>
        simp only [document, Document.string.injEq] at h
        rw [printedUnits_injective h]
      | _ => simp [document] at h
  | array items, w, h => by
      cases w with
      | array others =>
        simp only [document, Document.array.injEq] at h
        rw [documentItems_inj items others h]
      | _ => simp [document] at h
  | object fields, w, h => by
      cases w with
      | object others =>
        simp only [document, Document.object.injEq] at h
        rw [documentFields_inj fields others h]
      | _ => simp [document] at h

theorem documentItems_inj :
    ∀ vs ws : List Value, documentItems vs = documentItems ws → vs = ws
  | [], [], _ => rfl
  | [], _ :: _, h => by simp [documentItems] at h
  | _ :: _, [], h => by simp [documentItems] at h
  | v :: vs, w :: ws, h => by
      simp only [documentItems, List.cons.injEq] at h
      rw [document_inj v w h.1, documentItems_inj vs ws h.2]

theorem documentFields_inj :
    ∀ vs ws : List (String × Value), documentFields vs = documentFields ws → vs = ws
  | [], [], _ => rfl
  | [], _ :: _, h => by simp [documentFields] at h
  | _ :: _, [], h => by simp [documentFields] at h
  | (name, v) :: vs, (name', w) :: ws, h => by
      simp only [documentFields, List.cons.injEq, Prod.mk.injEq] at h
      rw [printedUnits_injective h.1.1, document_inj v w h.1.2,
        documentFields_inj vs ws h.2]

end

/-! ## Reading -/

/-- The items of a printed array, without the brackets. -/
def itemsText (items : List Value) : List Char :=
  (Text.joinWith "," (renderItems items)).toList

/-- The fields of a printed object, without the braces. -/
def fieldsText (fields : List (String × Value)) : List Char :=
  (Text.joinWith "," (renderFields fields)).toList

theorem toList_render_array (items : List Value) :
    (array items).render.toList = '[' :: (itemsText items ++ [']']) := by
  simp [render, itemsText]

theorem toList_render_object (fields : List (String × Value)) :
    (object fields).render.toList = '\x7b' :: (fieldsText fields ++ ['\x7d']) := by
  simp [render, fieldsText]

theorem itemsText_singleton (item : Value) : itemsText [item] = item.render.toList := rfl

theorem itemsText_cons (item next : Value) (items : List Value) :
    itemsText (item :: next :: items)
      = item.render.toList ++ ',' :: itemsText (next :: items) := by
  simp [itemsText, renderItems, Text.joinWith]

theorem fieldsText_cons (name : String) (value : Value) (next : String × Value)
    (fields : List (String × Value)) :
    fieldsText ((name, value) :: next :: fields)
      = (renderString name).toList ++ ':'
        :: (value.render.toList ++ ',' :: fieldsText (next :: fields)) := by
  simp [fieldsText, renderFields, Text.joinWith]

theorem fieldsText_singleton (name : String) (value : Value) :
    fieldsText [(name, value)] = (renderString name).toList
      ++ ':' :: value.render.toList := by
  simp [fieldsText, renderFields, Text.joinWith]

/-- The first character of a printed value starts neither a blank nor the
end of a list. -/
theorem exists_render_cons (v : Value) :
    ∃ c cs, v.render.toList = c :: cs ∧ isSpace c = false ∧ c ≠ ']' := by
  cases v with
  | null => exact ⟨'n', _, rfl, rfl, by decide⟩
  | bool b => cases b <;> exact ⟨_, _, rfl, rfl, by decide⟩
  | number n =>
    obtain ⟨c, cs, hdigits, hdigit⟩ := exists_toDigits_cons n.mantissa.natAbs
    rw [render, Number.toList_render, hdigits, signOf]
    split
    · exact ⟨'-', _, rfl, rfl, by decide⟩
    · have hspace : isSpace c = false := by
        simp [isSpace, ne_of_isDigit hdigit (d := ' ') rfl,
          ne_of_isDigit hdigit (d := '\t') rfl, ne_of_isDigit hdigit (d := '\n') rfl,
          ne_of_isDigit hdigit (d := '\r') rfl]
      exact ⟨c, _, rfl, hspace, ne_of_isDigit hdigit rfl⟩
  | string s =>
    exact ⟨'"', _, by rw [render, ← append_nil (renderString s).toList,
      toList_renderString], rfl, by decide⟩
  | array items => exact ⟨'[', _, toList_render_array items, rfl, by decide⟩
  | object fields => exact ⟨'\x7b', _, toList_render_object fields, rfl, by decide⟩

theorem exists_itemsText_cons (item : Value) (items : List Value) :
    ∃ c cs, itemsText (item :: items) = c :: cs ∧ isSpace c = false ∧ c ≠ ']' := by
  obtain ⟨c, cs, htext, hspace, hend⟩ := exists_render_cons item
  cases items with
  | nil => exact ⟨c, cs, htext, hspace, hend⟩
  | cons next items =>
    exact ⟨c, _, by rw [itemsText_cons, htext, cons_append], hspace, hend⟩

theorem exists_fieldsText_cons (field : String × Value) (fields : List (String × Value)) :
    ∃ cs, fieldsText (field :: fields) = '"' :: cs := by
  obtain ⟨name, value⟩ := field
  cases fields with
  | nil => exact ⟨_, by rw [fieldsText_singleton, toList_renderString]⟩
  | cons next fields => exact ⟨_, by rw [fieldsText_cons, toList_renderString]⟩

theorem skipSpace_cons (h : isSpace c = false) (cs : List Char) :
    skipSpace (c :: cs) = c :: cs := by
  rw [skipSpace, List.dropWhile_cons_of_neg (by simp [h])]

theorem readDocument?_quote (fuel : Nat) (cs : List Char) :
    readDocument? (fuel + 1) ('"' :: cs) = (readString? cs).map fun p =>
      (.string p.1, p.2) := by
  cases h : readString? cs <;> simp [readDocument?, skipSpace_cons (c := '"') rfl, h]

/-- A list that is not empty is read item by item. -/
theorem readDocument?_bracket (fuel : Nat) (hspace : isSpace c = false) (hend : c ≠ ']') :
    readDocument? (fuel + 1) ('[' :: c :: cs) = (readItems? fuel (c :: cs)).map fun p =>
      (.array p.1, p.2) := by
  rw [readDocument?, skipSpace_cons rfl]
  simp only [skipSpace_cons hspace]
  split
  · rename_i heq
    exact absurd (List.cons.inj heq).1 hend
  · cases readItems? fuel (c :: cs) <;> rfl

/-- An object that is not empty is read member by member. -/
theorem readDocument?_brace (fuel : Nat) (h : skipSpace cs = '"' :: ds) :
    readDocument? (fuel + 1) ('\x7b' :: cs) = (readMembers? fuel cs).map fun p =>
      (.object p.1, p.2) := by
  have hmembers : readMembers? fuel ('"' :: ds) = readMembers? fuel cs := by
    cases fuel with
    | zero => rw [readMembers?, readMembers?]
    | succ fuel => rw [readMembers?, readMembers?, h, skipSpace_cons rfl]
  rw [readDocument?, skipSpace_cons rfl]
  cases hread : readMembers? fuel cs <;> simp [h, hmembers, hread]

theorem readDocument?_number (fuel : Nat) (n : Number) (hrest : EndsValue rest) :
    readDocument? (fuel + 1) (n.render.toList ++ rest)
      = some (.number n.numeral, rest) := by
  have hread := readNumeral?_render n hrest
  obtain ⟨c, cs, htext, hspace, -⟩ := exists_render_cons (number n)
  have hsign : c = '-' ∨ c.isDigit = true := by
    obtain ⟨d, ds, hdigits, hdigit⟩ := exists_toDigits_cons n.mantissa.natAbs
    rw [render, Number.toList_render, hdigits, signOf] at htext
    split at htext
    · exact .inl (List.cons.inj htext).1.symm
    · exact .inr ((List.cons.inj htext).1 ▸ hdigit)
  have hne : ∀ d : Char, d.isDigit = false → d ≠ '-' → c ≠ d := by
    rintro d hdigit hminus rfl
    rcases hsign with rfl | h
    · exact hminus rfl
    · exact Bool.false_ne_true (hdigit.symm.trans h)
  have hword : readWord? (c :: (cs ++ rest)) = none := by
    simp [readWord?, List.isPrefixOf?, (hne 'n' rfl (by decide)).symm,
      (hne 't' rfl (by decide)).symm, (hne 'f' rfl (by decide)).symm]
  rw [show n.render.toList = c :: cs from htext, List.cons_append] at hread ⊢
  rw [readDocument?, skipSpace_cons hspace]
  simp [hne '"' rfl (by decide), hne '[' rfl (by decide),
    hne '\x7b' rfl (by decide), hword, hread]

theorem readItems?_last {fuel : Nat} {document : Document}
    (h : readDocument? fuel cs = some (document, ']' :: rest)) :
    readItems? (fuel + 1) cs = some ([document], rest) := by
  simp [readItems?, h, skipSpace_cons (c := ']') rfl]

theorem readItems?_comma {fuel : Nat} {document : Document}
    {documents : List Document}
    (h : readDocument? fuel cs = some (document, ',' :: ds))
    (hitems : readItems? fuel ds = some (documents, rest)) :
    readItems? (fuel + 1) cs = some (document :: documents, rest) := by
  simp [readItems?, h, skipSpace_cons (c := ',') rfl, hitems]

theorem readMembers?_last {fuel : Nat} {name : String} {tail : List Char}
    {document : Document} (h : readDocument? fuel cs = some (document, tail))
    (htail : skipSpace tail = '\x7d' :: rest) :
    readMembers? (fuel + 1) ((renderString name).toList ++ ':' :: cs)
      = some ([(printedUnits name, document)], rest) := by
  rw [toList_renderString]
  simp [readMembers?, skipSpace_cons (c := '"') rfl, readString?_escape,
    skipSpace_cons (c := ':') rfl, h, htail, printedUnits]

theorem readMembers?_comma {fuel : Nat} {name : String} {document : Document}
    {members : List (List StringUnit × Document)}
    (h : readDocument? fuel cs = some (document, ',' :: ds))
    (hmembers : readMembers? fuel ds = some (members, rest)) :
    readMembers? (fuel + 1) ((renderString name).toList ++ ':' :: cs)
      = some ((printedUnits name, document) :: members, rest) := by
  rw [toList_renderString]
  simp [readMembers?, skipSpace_cons (c := '"') rfl, readString?_escape, skipSpace_cons
    (c := ':') rfl, h, skipSpace_cons (c := ',') rfl, hmembers, printedUnits]

/-- With this fuel a printed value is read as its document, and what follows
it is left; so for the items of an array and the fields of an object. -/
structure ReadsBack (fuel : Nat) : Prop where
  value : ∀ (v : Value) (rest : List Char), 2 * v.render.toList.length ≤ fuel →
    EndsValue rest →
    readDocument? fuel (v.render.toList ++ rest) = some (v.document, rest)
  items : ∀ (items : List Value) (rest : List Char),
    items ≠ [] → 2 * (itemsText items).length + 1 ≤ fuel →
    readItems? fuel (itemsText items ++ ']' :: rest) = some (documentItems items, rest)
  fields : ∀ (fields : List (String × Value)) (rest : List Char), fields ≠ [] →
    2 * (fieldsText fields).length + 1 ≤ fuel →
    readMembers? fuel (fieldsText fields ++ '\x7d' :: rest)
      = some (documentFields fields, rest)

namespace ReadsBack

variable {fuel : Nat}

theorem value_succ (ih : ReadsBack fuel) (v : Value)
    (hfuel : 2 * v.render.toList.length ≤ fuel + 1) (hrest : EndsValue rest) :
    readDocument? (fuel + 1) (v.render.toList ++ rest) = some (v.document, rest) := by
  cases v with
  | null => simp [readDocument?, render, skipSpace_cons (c := 'n') rfl, readWord?,
    List.isPrefixOf?, document]
  | bool b =>
    cases b with
    | true => simp [readDocument?, render, skipSpace_cons (c := 't') rfl, readWord?,
      List.isPrefixOf?, document]
    | false => simp [readDocument?, render, skipSpace_cons (c := 'f') rfl, readWord?,
      List.isPrefixOf?, document]
  | number n => exact readDocument?_number fuel n hrest
  | string s =>
    rw [render, toList_renderString, readDocument?_quote, readString?_escape]
    rfl
  | array items =>
    rw [toList_render_array, length_cons, length_append, length_singleton] at hfuel
    rw [toList_render_array, cons_append, append_assoc, singleton_append]
    cases items with
    | nil =>
      simp [readDocument?, itemsText, renderItems, Text.joinWith, skipSpace_cons
        (c := '[') rfl, skipSpace_cons (c := ']') rfl, document, documentItems]
    | cons item items =>
      obtain ⟨c, cs, htext, hspace, hend⟩ := exists_itemsText_cons item items
      have hitems := ih.items (item :: items) rest (by simp) (by omega)
      rw [htext, cons_append] at hitems ⊢
      rw [readDocument?_bracket fuel hspace hend, hitems]
      rfl
  | object fields =>
    rw [toList_render_object, length_cons, length_append, length_singleton] at hfuel
    rw [toList_render_object, cons_append, append_assoc, singleton_append]
    cases fields with
    | nil =>
      simp [readDocument?, fieldsText, renderFields, Text.joinWith, skipSpace_cons
        (c := '\x7b') rfl, skipSpace_cons (c := '\x7d') rfl, document, documentFields]
    | cons field fields =>
      obtain ⟨cs, htext⟩ := exists_fieldsText_cons field fields
      have hfields := ih.fields (field :: fields) rest (by simp) (by omega)
      rw [htext, cons_append] at hfields ⊢
      rw [readDocument?_brace fuel (skipSpace_cons rfl _), hfields]
      rfl

theorem items_succ (ih : ReadsBack fuel) {items : List Value} (hne : items ≠ [])
    (hfuel : 2 * (itemsText items).length + 1 ≤ fuel + 1) :
    readItems? (fuel + 1) (itemsText items ++ ']' :: rest)
      = some (documentItems items, rest) := by
  cases items with
  | nil => exact absurd rfl hne
  | cons item items =>
    cases items with
    | nil =>
      rw [itemsText_singleton] at hfuel ⊢
      exact readItems?_last (ih.value item _ (by omega) (endsValue_bracket rest))
    | cons next items =>
      rw [itemsText_cons] at hfuel ⊢
      rw [length_append, length_cons] at hfuel
      rw [append_assoc, cons_append]
      exact readItems?_comma (ih.value item _ (by omega) (endsValue_comma _))
        (ih.items _ rest (by simp) (by omega))

theorem fields_succ (ih : ReadsBack fuel) {fields : List (String × Value)}
    (hne : fields ≠ []) (hfuel : 2 * (fieldsText fields).length + 1 ≤ fuel + 1) :
    readMembers? (fuel + 1) (fieldsText fields ++ '\x7d' :: rest)
      = some (documentFields fields, rest) := by
  cases fields with
  | nil => exact absurd rfl hne
  | cons field fields =>
    obtain ⟨name, value⟩ := field
    cases fields with
    | nil =>
      rw [fieldsText_singleton] at hfuel ⊢
      rw [length_append, length_cons] at hfuel
      rw [append_assoc, cons_append]
      exact readMembers?_last (ih.value value _ (by omega) (endsValue_brace rest))
        (skipSpace_cons rfl rest)
    | cons next fields =>
      rw [fieldsText_cons] at hfuel ⊢
      rw [length_append, length_cons, length_append, length_cons] at hfuel
      rw [append_assoc, cons_append, append_assoc, cons_append]
      exact readMembers?_comma (ih.value value _ (by omega) (endsValue_comma _))
        (ih.fields _ rest (by simp) (by omega))

end ReadsBack

theorem readsBack (fuel : Nat) : ReadsBack fuel := by
  induction fuel with
  | zero =>
    refine ⟨fun v rest hfuel _ => ?_, fun _ _ _ hfuel => absurd hfuel (by omega),
      fun _ _ _ hfuel => absurd hfuel (by omega)⟩
    obtain ⟨c, cs, htext, -⟩ := exists_render_cons v
    simp [htext] at hfuel
  | succ fuel ih =>
    exact ⟨fun v _ => ih.value_succ v, fun _ _ => ih.items_succ,
      fun _ _ => ih.fields_succ⟩

theorem parse?_of_readDocument? {source : String} {document : Document}
    (h : readDocument? (2 * source.toList.length + 2) source.toList
      = some (document, [])) :
    parse? source = some document := by
  rw [parse?, h]
  rfl

/-- **A printed value is read back.** -/
theorem parse?_render (v : Value) : parse? v.render = some v.document := by
  have hread :=
    (readsBack (2 * v.render.toList.length + 2)).value v [] (by omega) endsValue_nil
  rw [append_nil] at hread
  exact parse?_of_readDocument? hread

theorem render_injective : Function.Injective render := by
  intro v w h
  have hparsed := congrArg parse? h
  rw [parse?_render, parse?_render, Option.some.injEq] at hparsed
  exact document_inj v w hparsed

/-! ## Objects of strings

They are printed with one field a line. The reader passes over the blanks in
front of a name and of a value. -/

theorem skipSpace_space (h : isSpace c = true) (cs : List Char) :
    skipSpace (c :: cs) = skipSpace cs :=
  dropWhile_cons_of_pos h

theorem readDocument?_space (fuel : Nat) (h : isSpace c = true) (cs : List Char) :
    readDocument? fuel (c :: cs) = readDocument? fuel cs := by
  cases fuel with
  | zero => rw [readDocument?, readDocument?]
  | succ fuel => rw [readDocument?, readDocument?, skipSpace_space h]

theorem readMembers?_space (fuel : Nat) (h : isSpace c = true) (cs : List Char) :
    readMembers? fuel (c :: cs) = readMembers? fuel cs := by
  cases fuel with
  | zero => rw [readMembers?, readMembers?]
  | succ fuel => rw [readMembers?, readMembers?, skipSpace_space h]

/-- The line of a field. -/
def fieldLine (field : String × String) : String :=
  "  " ++ renderString field.1 ++ ": " ++ renderString field.2

/-- The member that the line of a field is read as. -/
def fieldMember (field : String × String) : List StringUnit × Document :=
  (printedUnits field.1, .string (printedUnits field.2))

theorem toList_fieldLine (field : String × String) (rest : List Char) :
    (fieldLine field).toList ++ rest
      = ' ' :: ' ' :: ((renderString field.1).toList
        ++ ':' :: ' ' :: ((renderString field.2).toList ++ rest)) := by
  simp [fieldLine]

theorem readDocument?_renderString (fuel : Nat) (s : String) (rest : List Char) :
    readDocument? (fuel + 1) (' ' :: ((renderString s).toList ++ rest))
      = some (.string (printedUnits s), rest) := by
  rw [readDocument?_space _ rfl, toList_renderString, readDocument?_quote,
    readString?_escape]
  rfl

/-- The lines of some fields. -/
def fieldLines (fields : List (String × String)) : List Char :=
  (Text.joinWith ",\n" (fields.map fieldLine)).toList

theorem fieldLines_singleton (field : String × String) :
    fieldLines [field] = (fieldLine field).toList := rfl

theorem fieldLines_cons (field next : String × String) (fields : List (String × String)) :
    fieldLines (field :: next :: fields)
      = (fieldLine field).toList ++ ',' :: '\n' :: fieldLines (next :: fields) := by
  simp [fieldLines, Text.joinWith]

theorem length_le_fieldLines (fields : List (String × String)) :
    fields.length ≤ (fieldLines fields).length := by
  induction fields with
  | nil => exact Nat.zero_le _
  | cons field fields ih =>
    cases fields with
    | nil => simp [fieldLines_singleton, fieldLine]
    | cons next fields =>
      simp only [fieldLines_cons, length_append, length_cons] at ih ⊢
      omega

theorem exists_fieldLines_cons (hne : fields ≠ []) :
    ∃ cs, fieldLines fields = ' ' :: ' ' :: '"' :: cs := by
  match fields with
  | [] => exact absurd rfl hne
  | [field] =>
    exact ⟨_, by rw [fieldLines_singleton, ← List.append_nil (fieldLine field).toList,
      toList_fieldLine, toList_renderString]⟩
  | field :: next :: fields =>
    exact ⟨_, by rw [fieldLines_cons, toList_fieldLine, toList_renderString]⟩

theorem readMembers?_fieldLines (hne : fields ≠ []) {fuel : Nat}
    (hfuel : fields.length < fuel) :
    readMembers? fuel (fieldLines fields ++ '\n' :: '\x7d' :: rest)
      = some (fields.map fieldMember, rest) := by
  induction fields generalizing fuel with
  | nil => exact absurd rfl hne
  | cons field fields ih =>
    obtain ⟨fuel, rfl⟩ : ∃ n, fuel = n + 2 :=
      Nat.exists_eq_add_of_le' (by rw [List.length_cons] at hfuel; omega)
    cases fields with
    | nil =>
      rw [fieldLines_singleton, toList_fieldLine, readMembers?_space _ rfl,
        readMembers?_space _ rfl]
      exact readMembers?_last (readDocument?_renderString fuel field.2 _) rfl
    | cons next fields =>
      rw [fieldLines_cons, List.append_assoc, List.cons_append, List.cons_append,
        toList_fieldLine, readMembers?_space _ rfl, readMembers?_space _ rfl]
      refine readMembers?_comma (readDocument?_renderString fuel field.2 _) ?_
      rw [readMembers?_space _ rfl]
      exact ih (by simp) (by simpa using hfuel)

/-- **A printed object of strings is read back.** -/
theorem parse?_renderStringObject (hne : fields ≠ []) :
    parse? (renderStringObject fields) = some (.object (fields.map fieldMember)) := by
  have htext : (renderStringObject fields).toList
      = '\x7b' :: '\n' :: (fieldLines fields ++ ['\n', '\x7d']) := by
    simp [renderStringObject]
    rfl
  obtain ⟨cs, hcs⟩ := exists_fieldLines_cons hne
  have hquote : skipSpace ('\n' :: (fieldLines fields ++ ['\n', '\x7d']))
      = '"' :: (cs ++ ['\n', '\x7d']) := by
    rw [hcs]
    rfl
  have hread : ∀ fuel, fields.length < fuel →
      readDocument? (fuel + 1) (renderStringObject fields).toList
        = some (.object (fields.map fieldMember), []) := by
    intro fuel hfuel
    rw [htext, readDocument?_brace _ hquote, readMembers?_space _ rfl,
      readMembers?_fieldLines hne hfuel]
    rfl
  have hlength : fields.length ≤ (renderStringObject fields).toList.length := by
    rw [htext, length_cons, length_cons, length_append]
    have hlines := length_le_fieldLines fields
    omega
  exact parse?_of_readDocument? (hread _ (by omega))

end Value

end Json

end TypedContent

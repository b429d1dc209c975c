import Mathlib.Data.List.Basic
import TypedContent.Output.Transport
import TypedContent.TypeScript.Printer

/-!
# Double-quoted literals

A text between double quotes is read back by the rules of the language
(`readLiteral`): a raw line feed or carriage return breaks the literal off,
a backslash starts an escape, and the value is a sequence of UTF-16 code
units.

The printer escapes the quote and the backslash and nothing else. So the
scan of an escaped text goes through unless the text has a line break
(`scanBody_escape`), and the import path, which is not escaped at all, must
not have a quote or a backslash either. The second half rests on a length:
an escape always has more code units than it stands for
(`length_of_escapeSequence?`), so a path with a backslash never stands for
itself (`of_scanBody`). Both conditions are exact
(`quoted_text_survives_iff`).
-/

namespace TypedContent

open List

namespace TypeScript

variable {cs rest : List Char} {units : List Nat} {c : Char} {s : String}
  {place : QuotedPlace}

/-! ## Code units -/

/-- The UTF-16 code units of a code point. -/
def unitsOf (n : Nat) : List Nat :=
  if n < 0x10000 then [n]
    else [0xD800 + (n - 0x10000) / 0x400, 0xDC00 + (n - 0x10000) % 0x400]

/-- The UTF-16 code units of a text. -/
def codeUnits (cs : List Char) : List Nat :=
  cs.flatMap fun c => unitsOf c.toNat

/-- The text with the given code units, if they are those of a text:
surrogates have to come in pairs. -/
def ofCodeUnits? : List Nat → Option (List Char)
  | [] => some []
  | u :: us =>
    if u < 0xD800 ∨ 0xDFFF < u ∧ u < 0x10000 then
      (ofCodeUnits? us).map (Char.ofNat u :: ·)
    else
      match us with
      | [] => none
      | v :: us =>
        if 0xD800 ≤ u ∧ u < 0xDC00 ∧ 0xDC00 ≤ v ∧ v < 0xE000 then
          (ofCodeUnits? us).map
            (Char.ofNat (0x10000 + (u - 0xD800) * 0x400 + (v - 0xDC00)) :: ·)
        else none

@[simp] theorem codeUnits_nil : codeUnits [] = [] := rfl

theorem codeUnits_cons (c : Char) (cs : List Char) :
    codeUnits (c :: cs) = unitsOf c.toNat ++ codeUnits cs := rfl

theorem codeUnits_append (cs ds : List Char) :
    codeUnits (cs ++ ds) = codeUnits cs ++ codeUnits ds :=
  flatMap_append

theorem toNat_valid (c : Char) :
    c.toNat < 0xD800 ∨ 0xDFFF < c.toNat ∧ c.toNat < 0x110000 :=
  c.valid

theorem toNat_ofNat_of_valid {n : Nat} (h : n < 0xD800 ∨ 0xDFFF < n ∧ n < 0x110000) :
    (Char.ofNat n).toNat = n := by
  rw [Char.ofNat, dif_pos h]
  rfl

theorem ofCodeUnits?_unit {u : Nat} (h : u < 0xD800 ∨ 0xDFFF < u ∧ u < 0x10000)
    (us : List Nat) :
    ofCodeUnits? (u :: us) = (ofCodeUnits? us).map (Char.ofNat u :: ·) := by
  rw [ofCodeUnits?.eq_def]
  exact if_pos h

theorem length_unitsOf_pos (n : Nat) : 0 < (unitsOf n).length := by
  unfold unitsOf
  split <;> simp

theorem length_le_codeUnits (cs : List Char) : cs.length ≤ (codeUnits cs).length := by
  induction cs with
  | nil => exact Nat.le_refl 0
  | cons c cs ih =>
    have hpos := length_unitsOf_pos c.toNat
    rw [codeUnits_cons, length_append, length_cons]
    omega

theorem ofCodeUnits?_codeUnits (cs : List Char) :
    ofCodeUnits? (codeUnits cs) = some cs := by
  induction cs with
  | nil => rfl
  | cons c cs ih =>
    have hvalid := toNat_valid c
    rw [codeUnits_cons, unitsOf]
    split
    · have hunit : c.toNat < 0xD800 ∨ 0xDFFF < c.toNat ∧ c.toNat < 0x10000 := by omega
      rw [singleton_append, ofCodeUnits?_unit hunit, ih, Option.map_some,
        Char.ofNat_toNat]
    · have hhigh : ¬ (0xD800 + (c.toNat - 0x10000) / 0x400 < 0xD800
          ∨ 0xDFFF < 0xD800 + (c.toNat - 0x10000) / 0x400
            ∧ 0xD800 + (c.toNat - 0x10000) / 0x400 < 0x10000) := by
        omega
      have hpair : 0xD800 ≤ 0xD800 + (c.toNat - 0x10000) / 0x400
          ∧ 0xD800 + (c.toNat - 0x10000) / 0x400 < 0xDC00
          ∧ 0xDC00 ≤ 0xDC00 + (c.toNat - 0x10000) % 0x400
            ∧ 0xDC00 + (c.toNat - 0x10000) % 0x400 < 0xE000 := by
        omega
      have hcode : 0x10000 + (0xD800 + (c.toNat - 0x10000) / 0x400 - 0xD800) * 0x400
          + (0xDC00 + (c.toNat - 0x10000) % 0x400 - 0xDC00) = c.toNat := by
        omega
      rw [cons_append, singleton_append, ofCodeUnits?, if_neg hhigh]
      simp only [if_pos hpair, hcode, ih, Option.map_some, Char.ofNat_toNat]

/-- Code units stand for one text at most. -/
theorem codeUnits_of_ofCodeUnits? {us : List Nat} (h : ofCodeUnits? us = some cs) :
    codeUnits cs = us := by
  fun_induction ofCodeUnits? us generalizing cs with
  | case1 =>
    obtain rfl := Option.some.inj h
    rfl
  | case2 u us hunit ih =>
    obtain ⟨ds, hds, rfl⟩ := Option.map_eq_some_iff.1 h
    have hcode : (Char.ofNat u).toNat = u := toNat_ofNat_of_valid (by omega)
    have hsmall : u < 0x10000 := by omega
    rw [codeUnits_cons, hcode, unitsOf, if_pos hsmall, ih hds, singleton_append]
  | case3 => cases h
  | case4 u hunit v us hpair ih =>
    obtain ⟨ds, hds, rfl⟩ := Option.map_eq_some_iff.1 h
    have hcode : (Char.ofNat (0x10000 + (u - 0xD800) * 0x400 + (v - 0xDC00))).toNat
        = 0x10000 + (u - 0xD800) * 0x400 + (v - 0xDC00) := toNat_ofNat_of_valid (by omega)
    have hlarge : ¬ 0x10000 + (u - 0xD800) * 0x400 + (v - 0xDC00) < 0x10000 := by omega
    have hfirst :
        0xD800 + (0x10000 + (u - 0xD800) * 0x400 + (v - 0xDC00) - 0x10000) / 0x400
          = u := by omega
    have hsecond :
        0xDC00 + (0x10000 + (u - 0xD800) * 0x400 + (v - 0xDC00) - 0x10000) % 0x400
          = v := by omega
    rw [codeUnits_cons, hcode, unitsOf, if_neg hlarge, hfirst, hsecond, ih hds]
    rfl
  | case5 => cases h

/-! ## Escapes -/

/-- A line feed or a carriage return. -/
def isLineBreak (c : Char) : Bool :=
  c == '\n' || c == '\r'

/-- A character that ends a line: a line break or one of the two
separators. -/
def isLineEnd (c : Char) : Bool :=
  isLineBreak c || c == '\u2028' || c == '\u2029'

/-- The escapes of one character that stand for another one. -/
def singleEscapes : List (Char × Nat) :=
  [('b', 8), ('t', 9), ('n', 10), ('v', 11), ('f', 12), ('r', 13), ('"', 34),
    ('\x27', 39), ('\\', 92)]

/-- A fixed number of hexadecimal digits. -/
def hexEscape? (count : Nat) (cs : List Char) : Option (List Nat × List Char) :=
  if cs.length < count then none
  else (Text.hexNumber? (cs.take count)).map fun n => ([n], cs.drop count)

/-- Hexadecimal digits up to a closing brace. -/
def bracedEscape? (cs : List Char) : Option (List Nat × List Char) :=
  match cs.takeWhile (· ≠ '\x7d'), cs.dropWhile (· ≠ '\x7d') with
  | digit :: digits, _ :: rest =>
    (Text.hexNumber? (digit :: digits)).bind fun n =>
      if n < 0x110000 then some (unitsOf n, rest) else none
  | _, _ => none

def unicodeEscape? : List Char → Option (List Nat × List Char)
  | [] => none
  | c :: cs => if c = '\x7b' then bracedEscape? cs else hexEscape? 4 (c :: cs)

/-- The end of a line behind a backslash belongs to no line; a return and a
line feed are one end. -/
def dropLineEnd (c : Char) (cs : List Char) : List Char :=
  if c = '\r' ∧ cs.head? = some '\n' then cs.drop 1 else cs

/-- What an escape stands for, read behind its backslash, and what follows
it. A zero must not be followed by a digit, and no other digit is
escaped. -/
def escapeSequence? : List Char → Option (List Nat × List Char)
  | [] => none
  | c :: cs =>
    match singleEscapes.lookup c with
    | some unit => some ([unit], cs)
    | none =>
      if c = 'x' then hexEscape? 2 cs
      else if c = 'u' then unicodeEscape? cs
      else if c = '0' then if cs.head?.any Char.isDigit then none else some ([0], cs)
      else if c.isDigit then none
      else if isLineEnd c then some ([], dropLineEnd c cs)
      else some (unitsOf c.toNat, cs)

theorem length_unitsOf_le (n : Nat) : (unitsOf n).length ≤ 2 := by
  unfold unitsOf
  split <;> simp

theorem of_hexEscape? {count : Nat} (hcount : 0 < count)
    (h : hexEscape? count cs = some (units, rest)) :
    ∃ used, cs = used ++ rest ∧ used ≠ [] ∧ units.length ≤ 1 := by
  unfold hexEscape? at h
  split at h
  · cases h
  · obtain ⟨n, -, hn⟩ := Option.map_eq_some_iff.1 h
    obtain ⟨rfl, rfl⟩ := Prod.mk.inj hn
    refine ⟨cs.take count, (List.take_append_drop count cs).symm, fun hnil => ?_,
      Nat.le_refl 1⟩
    have hlength := congrArg List.length hnil
    rw [List.length_take, List.length_nil] at hlength
    omega

theorem of_bracedEscape? (h : bracedEscape? cs = some (units, rest)) :
    ∃ used, cs = used ++ rest ∧ 2 ≤ used.length ∧ units.length ≤ 2 := by
  unfold bracedEscape? at h
  split at h
  · rename_i digit digits closing rest' hdigits hrest
    obtain ⟨n, -, hn⟩ := Option.bind_eq_some_iff.1 h
    split at hn
    · obtain ⟨rfl, rfl⟩ := Prod.mk.inj (Option.some.inj hn)
      have hsplit := List.takeWhile_append_dropWhile (p := (· ≠ '\x7d')) (l := cs)
      rw [hdigits, hrest] at hsplit
      refine ⟨digit :: digits ++ [closing], ?_, ?_, length_unitsOf_le n⟩
      · rw [← hsplit, List.append_assoc, List.singleton_append]
      · simp
    · cases hn
  · cases h

theorem suffix_dropLineEnd (c : Char) (cs : List Char) : dropLineEnd c cs <:+ cs := by
  unfold dropLineEnd
  split
  · exact List.drop_suffix 1 cs
  · exact List.suffix_refl cs

/-- An escape, without its backslash, is long enough for what it stands for
and for the back quotes in it together, unless it is a back quote. -/
theorem count_of_escapeSequence? (h : escapeSequence? cs = some (units, rest)) :
    ∃ used, cs = used ++ rest ∧ used ≠ []
      ∧ (used = ['\x60'] ∧ units.length = 1
        ∨ units.length + used.count '\x60' ≤ (codeUnits used).length) := by
  -- The first character makes up for one unit, whatever back quotes follow
  -- it.
  have hbehind : ∀ {c : Char} {used : List Char} {us : List Nat},
      c ≠ '\x60' → us.length ≤ 1 →
      us.length + (c :: used).count '\x60' ≤ (codeUnits (c :: used)).length := by
    intro c used us hc hus
    have hlength := length_le_codeUnits used
    have hcount := List.count_le_length (a := '\x60') (l := used)
    have hpos := length_unitsOf_pos c.toNat
    rw [List.count_cons_of_ne hc, codeUnits_cons, List.length_append]
    omega
  unfold escapeSequence? at h
  split at h
  · cases h
  · rename_i c cs
    split at h
    · rename_i unit hsingle
      obtain ⟨rfl, rfl⟩ := Prod.mk.inj (Option.some.inj h)
      have hc : c ≠ '\x60' := by
        rintro rfl
        cases hsingle
      exact ⟨[c], rfl, by simp, .inr (hbehind hc (Nat.le_refl 1))⟩
    split at h
    · rename_i hx
      obtain ⟨used, rfl, -, hunits⟩ := of_hexEscape? (by decide) h
      exact ⟨c :: used, rfl, by simp, .inr (hbehind (hx ▸ by decide) hunits)⟩
    split at h
    · rename_i hu
      have hc : c ≠ '\x60' := hu ▸ by decide
      cases cs with
      | nil => cases h
      | cons d ds =>
        rw [unicodeEscape?] at h
        split at h
        · rename_i hbrace
          obtain ⟨used, rfl, -, hunits⟩ := of_bracedEscape? h
          have hlength := length_le_codeUnits used
          have hcount := List.count_le_length (a := '\x60') (l := used)
          have hpos := length_unitsOf_pos c.toNat
          have hpos' := length_unitsOf_pos d.toNat
          refine ⟨c :: d :: used, rfl, by simp, .inr ?_⟩
          rw [List.count_cons_of_ne hc, List.count_cons_of_ne (hbrace ▸ by decide),
            codeUnits_cons, codeUnits_cons, List.length_append, List.length_append]
          omega
        · obtain ⟨used, hsplit, -, hunits⟩ := of_hexEscape? (by decide) h
          exact ⟨c :: used, by
            rw [hsplit, List.cons_append], by simp, .inr (hbehind hc hunits)⟩
    split at h
    · rename_i hzero
      split at h
      · cases h
      · obtain ⟨rfl, rfl⟩ := Prod.mk.inj (Option.some.inj h)
        exact ⟨[c], rfl, by simp, .inr (hbehind (hzero ▸ by decide) (Nat.le_refl 1))⟩
    split at h
    · cases h
    split at h
    · rename_i hend
      obtain ⟨rfl, rfl⟩ := Prod.mk.inj (Option.some.inj h)
      have hc : c ≠ '\x60' := by
        rintro rfl
        revert hend
        decide
      obtain ⟨dropped, hdropped⟩ := suffix_dropLineEnd c cs
      exact ⟨c :: dropped, by
        rw [List.cons_append, hdropped], by simp, .inr (hbehind hc (Nat.zero_le 1))⟩
    · obtain ⟨rfl, rfl⟩ := Prod.mk.inj (Option.some.inj h)
      by_cases hc : c = '\x60'
      · subst hc
        exact ⟨['\x60'], rfl, by simp, .inl ⟨rfl, rfl⟩⟩
      · refine ⟨[c], rfl, by simp, .inr ?_⟩
        rw [List.count_cons_of_ne hc, codeUnits_cons, List.length_append]
        exact Nat.le_refl _

/-- An escape, with its backslash, is longer than what it stands for. -/
theorem length_of_escapeSequence? (h : escapeSequence? cs = some (units, rest)) :
    ∃ used, cs = used ++ rest ∧ used ≠ [] ∧ units.length ≤ (codeUnits used).length := by
  obtain ⟨used, hsplit, hused, hunits⟩ := count_of_escapeSequence? h
  refine ⟨used, hsplit, hused, ?_⟩
  rcases hunits with ⟨rfl, hunits⟩ | hunits
  · exact Nat.le_of_eq hunits
  · omega

/-! ## Literals -/

theorem length_lt_of_escapeSequence? (h : escapeSequence? cs = some (units, rest)) :
    rest.length < cs.length := by
  obtain ⟨used, rfl, hused, -⟩ := length_of_escapeSequence? h
  have hpos := List.length_pos_iff.2 hused
  rw [List.length_append]
  omega

/-- The code units of a literal, read behind its opening quote, and what
follows its closing quote. -/
def scanBody (cs : List Char) : Option (List Nat × List Char) :=
  match cs with
  | [] => none
  | c :: cs =>
    if c = '"' then some ([], cs)
    else if c = '\\' then
      match _h : escapeSequence? cs with
      | none => none
      | some (units, rest) =>
        (scanBody rest).map fun (more, after) => (units ++ more, after)
    else if isLineBreak c then none
    else (scanBody cs).map fun (more, after) => (unitsOf c.toNat ++ more, after)
termination_by cs.length
decreasing_by
  · have hlength := length_lt_of_escapeSequence? _h
    rw [length_cons]
    omega
  · exact Nat.lt_succ_self _

/-- The value of the double-quoted literal at the start of a text, and what
follows it. -/
def readLiteral : List Char → Option (String × List Char)
  | [] => none
  | c :: cs =>
    if c = '"' then
      (scanBody cs).bind fun (units, rest) => (ofCodeUnits? units).map fun value =>
        (String.ofList value, rest)
    else none

theorem scanBody_quote (rest : List Char) : scanBody ('"' :: rest) = some ([], rest) := by
  rw [scanBody, if_pos rfl]

theorem scanBody_escaped (h : escapeSequence? cs = some (units, rest)) :
    scanBody ('\\' :: cs) = (scanBody rest).map fun (more, after) =>
      (units ++ more, after) := by
  rw [scanBody, if_neg (by decide), if_pos rfl]
  split
  · rename_i hnone
    rw [h] at hnone
    cases hnone
  · rename_i units' rest' hsome
    rw [h] at hsome
    obtain ⟨rfl, rfl⟩ := Prod.mk.inj (Option.some.inj hsome)
    rfl

theorem scanBody_plain (hquote : c ≠ '"') (hslash : c ≠ '\\') (cs : List Char) :
    scanBody (c :: cs)
      = if isLineBreak c then none else (scanBody cs).map fun (more, after) =>
        (unitsOf c.toNat ++ more, after) := by
  rw [scanBody, if_neg hquote, if_neg hslash]

/-- A character is scanned as it is spelled, unless it is a line break: then
the literal breaks off. -/
theorem scanBody_escapeChar (c : Char) (cs : List Char) :
    scanBody (escapeChar c ++ cs)
      = if isLineBreak c then none else (scanBody cs).map fun (more, after) =>
        (unitsOf c.toNat ++ more, after) := by
  unfold escapeChar
  split
  · rename_i hslash
    subst hslash
    exact scanBody_escaped rfl
  split
  · rename_i hquote
    subst hquote
    exact scanBody_escaped rfl
  · rename_i hslash hquote
    exact scanBody_plain hquote hslash cs

/-- The scan of an escaped text ends at the quote behind it, with the text
as its value. -/
theorem scanBody_escape (cs rest : List Char) :
    scanBody (cs.flatMap escapeChar ++ '"' :: rest)
      = if cs.any isLineBreak then none else some (codeUnits cs, rest) := by
  induction cs with
  | nil => exact scanBody_quote rest
  | cons c cs ih =>
    rw [flatMap_cons, append_assoc, scanBody_escapeChar, ih, any_cons]
    cases isLineBreak c with
    | true => rfl
    | false => cases cs.any isLineBreak <;> rfl

/-- A character that stands for itself between quotes. -/
def isUnescaped (c : Char) : Bool :=
  c != '"' && c != '\\' && !isLineBreak c

theorem escapeChar_of_isUnescaped (h : isUnescaped c = true) : escapeChar c = [c] := by
  simp only [isUnescaped, Bool.and_eq_true, bne_iff_ne] at h
  rw [escapeChar, if_neg h.1.2, if_neg h.1.1]

/-- A literal has no more code units than the text between its quotes, and
as many only if the text has nothing to escape. The induction is on the
scan: an escape loses code units, every other character keeps its own. -/
theorem of_scanBody (h : scanBody cs = some (units, rest)) :
    ∃ body, cs = body ++ '"' :: rest ∧ units.length ≤ (codeUnits body).length
      ∧ (units.length = (codeUnits body).length → ∀ c ∈ body, isUnescaped c = true) := by
  fun_induction scanBody cs generalizing units rest with
  | case1 => cases h
  | case2 cs =>
    obtain ⟨rfl, rfl⟩ := Prod.mk.inj (Option.some.inj h)
    exact ⟨[], rfl, Nat.le_refl 0, fun _ c hc => nomatch hc⟩
  | case3 => cases h
  | case4 cs us rest' hescape hquote ih =>
    obtain ⟨⟨more, after⟩, hmore, hpair⟩ := Option.map_eq_some_iff.1 h
    obtain ⟨rfl, rfl⟩ := Prod.mk.inj hpair
    obtain ⟨used, rfl, -, hused⟩ := length_of_escapeSequence? hescape
    obtain ⟨body, rfl, hbody, -⟩ := ih hmore
    have hlost : (us ++ more).length < (codeUnits ('\\' :: (used ++ body))).length := by
      have hslash : (unitsOf ('\\' : Char).toNat).length = 1 := rfl
      rw [codeUnits_cons, codeUnits_append, length_append, length_append,
        length_append, hslash]
      omega
    refine ⟨'\\' :: (used ++ body), ?_, Nat.le_of_lt hlost,
      fun heq => absurd heq (Nat.ne_of_lt hlost)⟩
    rw [cons_append, append_assoc]
  | case5 => cases h
  | case6 c cs hquote hslash hbreak ih =>
    obtain ⟨⟨more, after⟩, hmore, hpair⟩ := Option.map_eq_some_iff.1 h
    obtain ⟨rfl, rfl⟩ := Prod.mk.inj hpair
    obtain ⟨body, rfl, hbody, hplain⟩ := ih hmore
    refine ⟨c :: body, rfl, ?_, fun heq => ?_⟩
    · rw [codeUnits_cons, length_append, length_append]
      omega
    · rw [codeUnits_cons, length_append, length_append] at heq
      have hself : isUnescaped c = true := by simp [isUnescaped, hquote, hslash, hbreak]
      exact forall_mem_cons.2 ⟨hself, hplain (by omega)⟩

/-! ## Reading what is written -/

theorem readLiteral_quoted (s : String) (rest : List Char) :
    readLiteral ((quoted s).toList ++ rest) = if s.toList.any isLineBreak then none
      else some (s, rest) := by
  have htext : (quoted s).toList ++ rest
      = '"' :: (s.toList.flatMap escapeChar ++ '"' :: rest) := by
    simp [quoted, escape]
  rw [htext, readLiteral, if_pos rfl, scanBody_escape]
  split
  · rfl
  · rw [Option.bind_some]
    simp only [ofCodeUnits?_codeUnits, Option.map_some, String.ofList_toList]

/-- A text between quotes, without escapes, is a literal of itself exactly
if it has nothing to escape. -/
theorem readLiteral_unescaped_iff (s : String) (rest : List Char) :
    readLiteral ('"' :: (s.toList ++ '"' :: rest)) = some (s, rest)
      ↔ s.toList.all isUnescaped = true := by
  rw [readLiteral, if_pos rfl, List.all_eq_true]
  constructor
  · intro hread
    obtain ⟨⟨units, after⟩, hscan, hvalue⟩ := Option.bind_eq_some_iff.1 hread
    obtain ⟨value, hunits, hpair⟩ := Option.map_eq_some_iff.1 hvalue
    obtain ⟨hs, hafter⟩ := Prod.mk.inj hpair
    subst hafter
    obtain ⟨body, hbody, -, hplain⟩ := of_scanBody hscan
    have hbody : s.toList = body := append_cancel_right hbody
    have hself : value = body := by rw [← hbody, ← hs, String.toList_ofList]
    rw [hbody]
    exact hplain (by rw [← hself, codeUnits_of_ofCodeUnits? hunits])
  · intro hplain
    have hspelled : s.toList.flatMap escapeChar = s.toList := by
      rw [flatMap_congr fun c hc => escapeChar_of_isUnescaped (hplain c hc),
        flatMap_singleton']
    have hline : s.toList.any isLineBreak = false := by
      rw [List.any_eq_false]
      intro c hc
      have hc := hplain c hc
      simp only [isUnescaped, Bool.and_eq_true, Bool.not_eq_true'] at hc
      exact Bool.eq_false_iff.1 hc.2
    have hscan := scanBody_escape s.toList rest
    rw [hspelled, hline] at hscan
    rw [hscan]
    simp [ofCodeUnits?_codeUnits]

/-! ## The places of literals -/

/-- A place where a text is written between double quotes, with what else is
written there. -/
inductive QuotedPlace where
  | literalType
  | literalExpr
  | propertyKey (type : TypeExpr) (isOptional : Bool)
  | fieldKey (value : Expr)
  | memberKey (type : TypeExpr) (isReadonly : Bool)
  | importPath (items : List String) (isTypeOnly : Bool)
  | apiPrefix

namespace QuotedPlace

/-- What is written when the place holds a text. -/
def text (s : String) : QuotedPlace → String
  | literalType => (TypeExpr.literal (.string s)).render
  | literalExpr => (Expr.literal (.string s)).render
  | propertyKey type isOptional => (Property.mk s type isOptional).render
  | fieldKey value => renderField s value value.render
  | memberKey type isReadonly => (ClassMember.property s type isReadonly).render
  | importPath items isTypeOnly => (Import.mk items s isTypeOnly).render
  | apiPrefix => Transport.text s

/-- Whether the place has quotes: a key has them only if it needs them. -/
def isQuoted (s : String) : QuotedPlace → Bool
  | propertyKey _ _ | memberKey _ _ => needsQuotes s
  | fieldKey value =>
    match value with
    | .identifier name => name != s && needsQuotes s
    | _ => needsQuotes s
  | _ => true

/-- The part of the text from the opening quote to the closing one. -/
def literal (s : String) : QuotedPlace → String
  | importPath _ _ => "\"" ++ s ++ "\""
  | literalType | literalExpr | propertyKey _ _ | fieldKey _ | memberKey _ _
  | apiPrefix => quoted s

/-- Whether the place holds the text unharmed. -/
def holds (s : String) : QuotedPlace → Bool
  | importPath _ _ => s.toList.all isUnescaped
  | literalType | literalExpr | propertyKey _ _ | fieldKey _ | memberKey _ _
  | apiPrefix => !s.toList.any isLineBreak

theorem key_of_needsQuotes (h : needsQuotes s = true) : key s = quoted s := by
  rw [key, if_pos h]

/-- Whatever the place, the literal stands between two texts that do not
depend on it. -/
theorem exists_text_eq (h : place.isQuoted s = true) :
    ∃ before after, place.text s = before ++ place.literal s ++ after := by
  cases place with
  | literalType =>
    refine ⟨"", "", ?_⟩
    rw [String.empty_append, String.append_empty]
    rfl
  | literalExpr =>
    refine ⟨"", "", ?_⟩
    rw [String.empty_append, String.append_empty]
    rfl
  | propertyKey type isOptional =>
    refine ⟨"", (if isOptional then "?" else "") ++ ": " ++ type.render, ?_⟩
    rw [text, literal, Property.render, Property.name, key_of_needsQuotes h]
    simp only [Property.type, String.append_assoc, String.empty_append]
    rfl
  | fieldKey value =>
    have hfield : needsQuotes s = true
        ∧ renderField s value value.render = key s ++ ": " ++ value.render := by
      cases value with
      | identifier name =>
        simp only [isQuoted, Bool.and_eq_true, bne_iff_ne] at h
        exact ⟨h.2, by rw [renderField, if_neg h.1]⟩
      | _ => exact ⟨h, rfl⟩
    refine ⟨"", ": " ++ value.render, ?_⟩
    rw [text, literal, hfield.2, key_of_needsQuotes hfield.1, String.empty_append,
      String.append_assoc]
  | memberKey type isReadonly =>
    refine ⟨if isReadonly then "readonly " else "", ": " ++ type.render ++ ";\n", ?_⟩
    have hrender : (memberKey type isReadonly).text s
        = (if isReadonly then "readonly " else "") ++ key s ++ ": " ++ type.render
          ++ ";\n" := rfl
    rw [hrender, literal, key_of_needsQuotes h]
    simp only [String.append_assoc]
  | importPath items isTypeOnly =>
    have hopening : "\x7d from \"" = "\x7d from " ++ "\"" := rfl
    have hclosing : "\";\n" = "\"" ++ ";\n" := rfl
    simp only [text, literal, Import.render, hopening, hclosing]
    split
    · exact ⟨"import " ++ (if isTypeOnly then "type " else "") ++ "\x7b" ++ " "
        ++ Text.joinWith ", " items ++ " "
        ++ "\x7d from ", ";\n", by simp only [String.append_assoc]⟩
    · exact ⟨"import " ++ (if isTypeOnly then "type " else "") ++ "\x7b" ++ "\n"
        ++ Text.concat (items.map fun name => "  " ++ name ++ ",\n")
          ++ "\x7d from ", ";\n", by
          simp only [String.append_assoc]⟩
  | apiPrefix =>
    refine ⟨"const DEFAULT_API_PREFIX = ",
      ";" ++ ("\n" ++ Text.unlines ("" :: Transport.configType ++ "" ::
      Transport.errorClass ++ "" :: Transport.serializeFunction
        ++ "" :: Transport.queryFunction ++ "" ::
      Transport.baseClass)), ?_⟩
    simp only [text, literal, Transport.text, Text.unlines,
      String.append_assoc, cons_append]

/-- A literal that the place holds is one complete literal of its text,
whatever follows, and otherwise it is not. -/
theorem readLiteral_literal_iff (place : QuotedPlace) (s : String) (after : List Char) :
    readLiteral ((place.literal s).toList ++ after) = some (s, after)
      ↔ place.holds s = true := by
  have hescaped : readLiteral ((quoted s).toList ++ after) = some (s, after)
      ↔ (!s.toList.any isLineBreak) = true := by
    rw [readLiteral_quoted]
    cases s.toList.any isLineBreak <;> simp
  cases place with
  | importPath items isTypeOnly =>
    have htext : ("\"" ++ s ++ "\"").toList ++ after
        = '"' :: (s.toList ++ '"' :: after) := by simp
    rw [literal, htext]
    exact readLiteral_unescaped_iff s after
  | _ => exact hescaped

theorem mem_literal (h : c ∈ (place.literal s).toList) :
    c = '"' ∨ c = '\\' ∨ c ∈ s.toList := by
  have hchar : ∀ d, c ∈ escapeChar d → c = '"' ∨ c = '\\' ∨ c = d := by
    intro d hd
    unfold escapeChar at hd
    split at hd
    · simp only [mem_cons, not_mem_nil, or_false, or_self] at hd
      exact .inr (.inl hd)
    split at hd
    · simp only [mem_cons, not_mem_nil, or_false] at hd
      rcases hd with hd | hd
      · exact .inr (.inl hd)
      · exact .inl hd
    · exact .inr (.inr (mem_singleton.1 hd))
  have hescaped : c ∈ (quoted s).toList → c = '"' ∨ c = '\\' ∨ c ∈ s.toList := by
    simp only [quoted, escape, String.toList_append, String.toList_ofList,
      List.mem_append, List.mem_flatMap]
    rintro ((hquote | ⟨d, hd, hmem⟩) | hquote)
    · exact .inl (List.mem_singleton.1 hquote)
    · rcases hchar d hmem with h | h | rfl
      · exact .inl h
      · exact .inr (.inl h)
      · exact .inr (.inr hd)
    · exact .inl (List.mem_singleton.1 hquote)
  cases place with
  | importPath items isTypeOnly =>
    simp only [literal, String.toList_append, List.mem_append] at h
    rcases h with (hquote | hmem) | hquote
    · exact .inl (List.mem_singleton.1 hquote)
    · exact .inr (.inr hmem)
    · exact .inl (List.mem_singleton.1 hquote)
  | _ => exact hescaped h

theorem isLineBreak_of_holds (h : place.holds s = true) (hc : c ∈ s.toList) :
    isLineBreak c = false := by
  have hescaped : (!s.toList.any isLineBreak) = true → isLineBreak c = false := by
    intro hnone
    rw [Bool.not_eq_true', List.any_eq_false] at hnone
    exact Bool.eq_false_iff.2 (hnone c hc)
  cases place with
  | importPath items isTypeOnly =>
    have hplain := List.all_eq_true.1 h c hc
    simp only [isUnescaped, Bool.and_eq_true, Bool.not_eq_true'] at hplain
    exact hplain.2
  | _ => exact hescaped h

end QuotedPlace

/-- **Which texts survive between double quotes.** Wherever a text is
written between double quotes, the text from the opening quote on is one
complete literal without a line break whose value is the text itself,
exactly if the text has no line break and, in the path of an import, no
quote and no backslash. -/
theorem quoted_text_survives_iff (place : QuotedPlace) (s : String)
    (h : place.isQuoted s = true) :
    ∃ before after, place.text s = before ++ place.literal s ++ after
      ∧ ((readLiteral (place.literal s ++ after).toList = some (s, after.toList)
          ∧ ∀ c ∈ (place.literal s).toList, isLineBreak c = false)
            ↔ place.holds s = true) := by
  obtain ⟨before, after, htext⟩ := QuotedPlace.exists_text_eq h
  refine ⟨before, after, htext, ?_⟩
  rw [String.toList_append, place.readLiteral_literal_iff s]
  constructor
  · exact fun hread => hread.1
  · intro hholds
    refine ⟨hholds, fun c hc => ?_⟩
    rcases QuotedPlace.mem_literal hc with rfl | rfl | hmem
    · rfl
    · rfl
    · exact QuotedPlace.isLineBreak_of_holds hholds hmem

/-- A key with a quote, a backslash and a quote behind that. -/
def awkwardKey : String :=
  "say \"no\\\""

theorem quoted_text_survives_awkwardKey :
    (QuotedPlace.propertyKey .string true).isQuoted awkwardKey = true
      ∧ ∃ before after, (QuotedPlace.propertyKey .string true).text awkwardKey
        = before ++ quoted awkwardKey ++ after
        ∧ readLiteral (quoted awkwardKey ++ after).toList
          = some (awkwardKey, after.toList) := by
  have hquoted : (QuotedPlace.propertyKey .string true).isQuoted awkwardKey = true := by
    decide
  obtain ⟨before, after, htext, hread⟩ :=
    quoted_text_survives_iff (.propertyKey .string true) awkwardKey hquoted
  exact ⟨hquoted, before, after, htext, (hread.2 (by decide)).1⟩

/-- A line feed in a literal type and a quote in the path of an import are
written as they are. -/
theorem unescaped_text_breaks_literal :
    (QuotedPlace.literalType.isQuoted "a\nb" = true
      ∧ QuotedPlace.literalType.text "a\nb" = "\"a\nb\""
        ∧ readLiteral "\"a\nb\"".toList = none)
      ∧ (QuotedPlace.importPath ["Item"] true).isQuoted "a\"b" = true
      ∧ (QuotedPlace.importPath ["Item"] true).text "a\"b"
        = "import type \x7b Item \x7d from \"a\"b\";\n"
      ∧ readLiteral "\"a\"b\";\n".toList ≠ some ("a\"b", ";\n".toList) := by
  refine ⟨⟨rfl, by decide, readLiteral_quoted "a\nb" []⟩, rfl, by decide, ?_⟩
  rw [Ne, show "\"a\"b\";\n".toList = '"' :: ("a\"b".toList ++ '"' :: ";\n".toList) by
    decide, readLiteral_unescaped_iff]
  decide

end TypeScript

end TypedContent

import Mathlib.Data.List.Basic
import TypedContent.Digest.Sha256
import TypedContent.Proofs.TypeScript.Tokens

/-!
# Template literals

A template is read element by element (`Alphabet.element?`): an escape, a
substitution, a line end, which is a line feed however it is spelled, or a
character that stands for itself. A substitution has a value here if it
encodes a parameter, `encodeURIComponent(String(params.name))` without
blanks; the values of the parameters are strings, that is sequences of
UTF-16 code units.

A back quote that no backslash escapes ends the template. So the text of a
template is at least as long as its value and the back quotes in it
together, provided that no value is longer than the substitution it comes
from. The two lengths agree only if nothing but back quotes is escaped
(`Alphabet.of_template?`).
-/

namespace TypedContent

open List Option

namespace TypeScript

variable {rest cs : List Char} {c : Char} {units : List Nat}

/-! ## Encoded values -/

/-- The characters that stand for themselves in a component of a URI. -/
def isUnreserved (c : Char) : Bool :=
  c.isAlphanum || "-_.!~*'()".toList.contains c

/-- A byte as a percent sign and two digits. -/
def percentEncoded (b : UInt8) : List Char :=
  '%' :: (Sha256.hexDigits b).map Char.toUpper

/-- The spelling of a character in a component of a URI. -/
def uriSpelling (c : Char) : List Char :=
  if isUnreserved c then [c] else (String.utf8EncodeChar c).flatMap percentEncoded

/-- The encoded form of a string as a component of a URI. A string whose
surrogates do not come in pairs has none. -/
def encodeUriComponent? (units : List Nat) : Option (List Nat) :=
  (ofCodeUnits? units).map fun cs => codeUnits (cs.flatMap uriSpelling)

/-- Letters are encoded as they are. -/
theorem encodeUriComponent?_replicate (n : Nat) :
    encodeUriComponent? (List.replicate n 97) = some (List.replicate n 97) := by
  have hunits : List.replicate n 97 = codeUnits (List.replicate n 'a') := by
    simp only [codeUnits, flatMap_replicate]
    simp [unitsOf, flatten_replicate_singleton]
  have hspelling : (List.replicate n 'a').flatMap uriSpelling = List.replicate n 'a' := by
    have ha : uriSpelling 'a' = ['a'] := rfl
    rw [flatMap_replicate, ha, flatten_replicate_singleton]
  rw [encodeUriComponent?, hunits, ofCodeUnits?_codeUnits, map_some, hspelling]

/-! ## Substitutions -/

/-- What stands in front of the parameter in a substitution, from the
opening brace on. -/
def beforeParam : List Char :=
  '\x7b' :: "encodeURIComponent(String(params.".toList

/-- What stands behind it, up to the closing brace. -/
def behindParam : List Char :=
  [')', ')', '\x7d']

/-- The substitution that encodes a parameter, without its dollar sign. -/
def substitution (name : List Char) : List Char :=
  beforeParam ++ (name ++ behindParam)

namespace Alphabet

variable {name : List Char}

/-- The word at the head of a text, and what follows it. -/
def word? (a : Alphabet) : List Char → Option (List Char × List Char)
  | [] => none
  | c :: cs => if a.isStart c then some (c :: cs.takeWhile a.isPart,
    cs.dropWhile a.isPart) else none

/-- The parameter that a substitution encodes, and what follows the
substitution. -/
def substitution? (a : Alphabet) (cs : List Char) : Option (List Char × List Char) :=
  (beforeParam.isPrefixOf? cs).bind fun cs =>
    (a.word? cs).bind fun (name, cs) =>
      (behindParam.isPrefixOf? cs).map fun rest => (name, rest)

variable {a : Alphabet} {values : List Char → List Nat}

theorem word?_append (h : a.isWord (String.ofList name) = true) (hrest : a.Bounds rest) :
    a.word? (name ++ rest) = some (name, rest) := by
  rw [isWord, String.toList_ofList] at h
  cases name with
  | nil => cases h
  | cons c cs =>
    rw [Bool.and_eq_true, List.all_eq_true] at h
    have hhead : rest.takeWhile a.isPart = [] ∧ rest.dropWhile a.isPart = rest := by
      cases rest with
      | nil => exact ⟨rfl, rfl⟩
      | cons d rest =>
        have hd : a.isPart d = false := hrest d rfl
        simp [hd]
    rw [cons_append, word?, if_pos h.1, takeWhile_append_of_pos h.2,
      dropWhile_append_of_pos h.2, hhead.1, hhead.2, append_nil]

theorem of_word? (h : a.word? cs = some (name, rest)) :
    cs = name ++ rest ∧ a.isWord (String.ofList name) = true := by
  cases cs with
  | nil => cases h
  | cons c cs =>
    rw [word?] at h
    split at h
    · rename_i hstart
      obtain ⟨rfl, rfl⟩ := Prod.mk.inj (Option.some.inj h)
      rw [cons_append, takeWhile_append_dropWhile, isWord, String.toList_ofList,
        Bool.and_eq_true, List.all_eq_true]
      exact ⟨rfl, hstart, fun d hd => mem_takeWhile_imp hd⟩
    · cases h

/-- A substitution is read if its parameter is a word. -/
theorem substitution?_of_isWord (h : a.isWord (String.ofList name) = true)
    (rest : List Char) :
    a.substitution? (substitution name ++ rest) = some (name, rest) := by
  have hbounds : a.Bounds (behindParam ++ rest) := by
    intro c hc
    obtain rfl : ')' = c := Option.some.inj hc
    exact a.isPart_ascii ')' (by decide)
  have hbefore : beforeParam.isPrefixOf? (beforeParam ++ (name ++ (behindParam ++ rest)))
      = some (name ++ (behindParam ++ rest)) := isPrefixOf?_eq_some_iff_append_eq.2 rfl
  have hbehind : behindParam.isPrefixOf? (behindParam ++ rest) = some rest :=
    isPrefixOf?_eq_some_iff_append_eq.2 rfl
  rw [substitution, append_assoc, append_assoc, substitution?, hbefore, bind_some,
    word?_append h hbounds, bind_some]
  exact congrArg (Option.map fun rest => (name, rest)) hbehind

theorem of_substitution? (h : a.substitution? cs = some (name, rest)) :
    cs = substitution name ++ rest ∧ a.isWord (String.ofList name) = true := by
  obtain ⟨cs', hbefore, hrest⟩ := bind_eq_some_iff.1 h
  obtain ⟨⟨name', cs''⟩, hname, hclosed⟩ := bind_eq_some_iff.1 hrest
  obtain ⟨rest', hbehind, hpair⟩ := map_eq_some_iff.1 hclosed
  obtain ⟨rfl, rfl⟩ := Prod.mk.inj hpair
  obtain ⟨rfl, hword⟩ := of_word? hname
  rw [isPrefixOf?_eq_some_iff_append_eq] at hbefore hbehind
  refine ⟨?_, hword⟩
  rw [← hbefore, ← hbehind, substitution, append_assoc, append_assoc]

theorem not_mem_of_isWord (hword : a.isWord (String.ofList name) = true)
    (hascii : c.toNat < 128) (hpart : isIdentifierPart c = false) :
    c ∉ name := by
  have hstart : isIdentifierStart c = false := by
    simp only [isIdentifierPart, Char.isAlphanum, Bool.or_eq_false_iff] at hpart
    simp [isIdentifierStart, hpart]
  rw [isWord, String.toList_ofList] at hword
  cases name with
  | nil => cases hword
  | cons d name =>
    rw [Bool.and_eq_true, List.all_eq_true] at hword
    intro hmem
    rcases mem_cons.1 hmem with rfl | hmem
    · rw [a.isStart_ascii c hascii, hstart] at hword
      cases hword.1
    · have hc := hword.2 c hmem
      rw [a.isPart_ascii c hascii, hpart] at hc
      cases hc

/-- A substitution is not read if its parameter is no word: the parameter
ends at the closing parenthesis. -/
theorem substitution?_eq_none (h : a.isWord (String.ofList name) = false) (hname : ')'
    ∉ name) (rest : List Char) :
    a.substitution? (substitution name ++ rest) = none := by
  rw [eq_none_iff_forall_ne_some]
  rintro ⟨name', rest'⟩ hread
  obtain ⟨hsplit, hword⟩ := of_substitution? hread
  have hupTo : ∀ {n : List Char},
      ')' ∉ n → ∀ r, (n ++ (behindParam ++ r)).takeWhile (· != ')') = n := by
    intro n hn r
    have hbehind : (behindParam ++ r).takeWhile (· != ')') = [] := rfl
    rw [takeWhile_append_of_pos, hbehind, append_nil]
    exact fun d hd => bne_iff_ne.2 fun hclosing => hn (hclosing ▸ hd)
  rw [substitution, substitution, append_assoc, append_assoc, append_assoc, append_assoc,
    append_cancel_left_eq] at hsplit
  have hnames := congrArg (List.takeWhile (· != ')')) hsplit
  rw [hupTo hname, hupTo (not_mem_of_isWord hword (by decide) (by decide))] at hnames
  rw [hnames, hword] at h
  cases h

/-! ## Templates -/

/-- The value of the next element of a template, and what follows the
element. -/
def element? (a : Alphabet) (values : List Char → List Nat) :
    List Char → Option (List Nat × List Char)
  | [] => none
  | c :: cs =>
    if c = '\\' then escapeSequence? cs
    else if c = '$' ∧ cs.head? = some '\x7b' then
      (a.substitution? cs).bind fun (name, rest) =>
        (encodeUriComponent? (values name)).map fun units => (units, rest)
    else if c = '\r' then some ([10], dropLineEnd c cs)
    else some (unitsOf c.toNat, cs)

/-- What an element can be. -/
theorem element?_cases (h : a.element? values (c :: cs) = some (units, rest)) :
    (c = '\\' ∧ escapeSequence? cs = some (units, rest))
      ∨ (∃ name, c = '$' ∧ cs = substitution name ++ rest
        ∧ a.isWord (String.ofList name) = true
        ∧ encodeUriComponent? (values name) = some units)
      ∨ (c = '\r' ∧ units = [10] ∧ rest = dropLineEnd c cs)
      ∨ (c ≠ '\\' ∧ units = unitsOf c.toNat ∧ rest = cs) := by
  rw [element?] at h
  split at h
  · rename_i hslash
    exact .inl ⟨hslash, h⟩
  split at h
  · rename_i hdollar
    obtain ⟨⟨name, rest'⟩, hsubstitution, hvalue⟩ := bind_eq_some_iff.1 h
    obtain ⟨units', hunits, hpair⟩ := map_eq_some_iff.1 hvalue
    obtain ⟨rfl, rfl⟩ := Prod.mk.inj hpair
    obtain ⟨hcs, hword⟩ := of_substitution? hsubstitution
    exact .inr (.inl ⟨name, hdollar.1, hcs, hword, hunits⟩)
  split at h
  · rename_i hreturn
    obtain ⟨rfl, rfl⟩ := Prod.mk.inj (Option.some.inj h)
    exact .inr (.inr (.inl ⟨hreturn, rfl, rfl⟩))
  · rename_i hslash _ _
    obtain ⟨rfl, rfl⟩ := Prod.mk.inj (Option.some.inj h)
    exact .inr (.inr (.inr ⟨hslash, rfl, rfl⟩))

theorem length_lt_of_element? (h : a.element? values cs = some (units, rest)) :
    rest.length < cs.length := by
  cases cs with
  | nil => cases h
  | cons c cs =>
    rw [length_cons, Nat.lt_succ_iff]
    rcases element?_cases h with ⟨-, hescape⟩ | ⟨name, -, rfl, -⟩
      | ⟨-, -, rfl⟩ | ⟨-, -, rfl⟩
    · exact Nat.le_of_lt (length_lt_of_escapeSequence? hescape)
    · rw [length_append]
      exact Nat.le_add_left _ _
    · exact (suffix_dropLineEnd c cs).length_le
    · exact Nat.le_refl _

/-- The value of a template, read behind its opening back quote, and what
follows its closing one. -/
def template? (a : Alphabet) (values : List Char → List Nat) (cs : List Char) :
    Option (List Nat × List Char) :=
  match cs with
  | [] => none
  | c :: cs =>
    if c = '\x60' then some ([], cs)
    else
      match _h : a.element? values (c :: cs) with
      | none => none
      | some (units, rest) =>
        (template? a values rest).map fun (more, after) => (units ++ more, after)
termination_by cs.length
decreasing_by exact length_lt_of_element? _h

theorem template?_end (rest : List Char) :
    a.template? values ('\x60' :: rest) = some ([], rest) := by
  rw [template?, if_pos rfl]

theorem template?_element (hc : c ≠ '\x60') (cs : List Char) :
    a.template? values (c :: cs)
      = (a.element? values (c :: cs)).bind fun (units, rest) =>
          (a.template? values rest).map fun (more, after) => (units ++ more, after) := by
  rw [template?, if_neg hc]
  split
  · rename_i hnone
    rw [hnone]
    rfl
  · rename_i units rest hsome
    rw [hsome]
    rfl

theorem template?_dollar (h : cs.head? = some '\x7b') :
    a.template? values ('$' :: cs)
      = (a.substitution? cs).bind fun (name, rest) =>
        (encodeUriComponent? (values name)).bind fun units =>
          (a.template? values rest).map fun (more, after) => (units ++ more, after) := by
  rw [template?_element (by decide), element?, if_neg (by decide), if_pos ⟨rfl, h⟩]
  cases a.substitution? cs with
  | none => rfl
  | some found =>
    obtain ⟨name, rest⟩ := found
    cases hvalue : encodeUriComponent? (values name) <;> simp [hvalue]

theorem template?_return (cs : List Char) :
    a.template? values ('\r' :: cs)
      = (a.template? values (dropLineEnd '\r' cs)).map fun (more, after) =>
        (10 :: more, after) := by
  rw [template?_element (by decide), element?, if_neg (by decide),
    if_neg fun h => absurd h.1 (by decide), if_pos rfl]
  rfl

/-- A character that no other rule is about stands for itself. -/
theorem template?_plain (hquote : c ≠ '\x60') (hslash : c ≠ '\\') (hreturn : c ≠ '\r')
    (hdollar : ¬ (c = '$' ∧ cs.head? = some '\x7b')) :
    a.template? values (c :: cs)
      = (a.template? values cs).map fun (more, after) =>
        (unitsOf c.toNat ++ more, after) := by
  rw [template?_element hquote, element?, if_neg hslash, if_neg hdollar, if_neg hreturn]
  rfl

/-! ## Lengths -/

/-- A text has room for a value if it is at least as long as the value and
the back quotes in it together. If it is no longer, then it must have one
backslash for each of these back quotes and no other. -/
def HasRoom (text : List Char) (units : List Nat) : Prop :=
  units.length + text.count '\x60' < (codeUnits text).length
    ∨ units.length + text.count '\x60' = (codeUnits text).length
      ∧ text.count '\\' = text.count '\x60'

theorem HasRoom.append {text more : List Char} {units' : List Nat}
    (h : HasRoom text units) (hmore : HasRoom more units') :
    HasRoom (text ++ more) (units ++ units') := by
  unfold HasRoom at *
  rw [length_append, count_append, count_append, codeUnits_append, length_append]
  omega

/-- Every value is as long as the substitution it comes from. -/
def Fills (values : List Char → List Nat) : Prop :=
  ∀ name, ∃ units, encodeUriComponent? (values name) = some units
    ∧ units.length = (codeUnits ('$' :: substitution name)).length

theorem not_mem_substitution (hc : c = '\x60' ∨ c = '\\') (hname : c ∉ name) :
    c ∉ '$' :: substitution name := by
  have hframe : c ≠ '$' ∧ c ∉ beforeParam ∧ c ∉ behindParam := by
    rcases hc with rfl | rfl <;> decide
  simp [substitution, hframe, hname]

/-- What one element leaves room for. Only an escaped back quote is as long
as a back quote and its value together. -/
theorem hasRoom_of_element? (hvalues : Fills values)
    (h : a.element? values cs = some (units, rest)) (hhead : cs.head? ≠ some '\x60') :
    ∃ used, cs = used ++ rest ∧ HasRoom used units := by
  cases cs with
  | nil => cases h
  | cons c cs =>
    have hquote : c ≠ '\x60' := fun hc => hhead (by rw [hc]; rfl)
    rcases element?_cases h with ⟨rfl, hescape⟩ | ⟨name, rfl, rfl, hword, hunits⟩
      | ⟨rfl, rfl, rfl⟩
      | ⟨hslash, rfl, rfl⟩
    · obtain ⟨used, rfl, -, hused⟩ := count_of_escapeSequence? hescape
      refine ⟨'\\' :: used, rfl, ?_⟩
      rcases hused with ⟨rfl, hunits⟩ | hused
      · exact .inr ⟨by rw [hunits]; rfl, by decide⟩
      · refine .inl ?_
        have hone : (unitsOf ('\\' : Char).toNat).length = 1 := rfl
        rw [count_cons_of_ne (by decide), codeUnits_cons, length_append, hone]
        omega
    · obtain ⟨units', hvalue, hlength⟩ := hvalues name
      obtain rfl : units' = units := Option.some.inj (hvalue.symm.trans hunits)
      refine ⟨'$' :: substitution name, rfl, .inr ?_⟩
      have hnot := fun c => not_mem_of_isWord (c := c) hword
      rw [count_eq_zero_of_not_mem
        (not_mem_substitution (.inl rfl) (hnot _ (by decide) (by decide))),
        count_eq_zero_of_not_mem
        (not_mem_substitution (.inr rfl) (hnot _ (by decide) (by decide)))]
      exact ⟨hlength, rfl⟩
    · -- A line feed behind the return makes the text longer than the value.
      unfold dropLineEnd
      split
      · rename_i hfeed
        obtain ⟨rest, rfl⟩ := head?_eq_some_iff.1 hfeed.2
        exact ⟨['\r', '\n'], rfl, .inl (by decide)⟩
      · exact ⟨['\r'], rfl, .inr (by decide)⟩
    · refine ⟨[c], rfl, .inr ?_⟩
      rw [count_cons_of_ne hquote, count_cons_of_ne hslash, codeUnits_cons, length_append]
      exact ⟨rfl, rfl⟩

/-- The text of a template has room for its value. -/
theorem of_template? (hvalues : Fills values)
    (h : a.template? values cs = some (units, rest)) :
    ∃ body, cs = body ++ '\x60' :: rest ∧ HasRoom body units := by
  fun_induction template? a values cs generalizing units rest with
  | case1 => cases h
  | case2 cs =>
    obtain ⟨rfl, rfl⟩ := Prod.mk.inj (Option.some.inj h)
    exact ⟨[], rfl, .inr ⟨rfl, rfl⟩⟩
  | case3 => cases h
  | case4 c cs hc units' rest' helement ih =>
    obtain ⟨⟨more, after⟩, hmore, hpair⟩ := map_eq_some_iff.1 h
    obtain ⟨rfl, rfl⟩ := Prod.mk.inj hpair
    obtain ⟨used, hused, hroom⟩ :=
      hasRoom_of_element? hvalues helement (by simpa using hc)
    obtain ⟨body, rfl, hbody⟩ := ih hmore
    exact ⟨used ++ body, by rw [hused, append_assoc], hroom.append hbody⟩

end Alphabet

end TypeScript

end TypedContent

import TypedContent.Proofs.Naming.Characters
import TypedContent.Proofs.TypeScript.Tokens

/-!
# Words of an alphabet

Names are made by putting an ending behind a stem, and by spelling. An
ending of ASCII letters makes a word of every stem that is one, and of the
empty stem (`isWord_append_iff`). Being a word does not depend on ASCII
letter case (`isWord_congr`), so the spellings of an ASCII name are words
together, and they are if its characters without the separators make up an
identifier (`isWord_ofList`). A method name takes care of its first
character itself, which leaves the others (`isWord_methodName_iff`).
-/

namespace TypedContent

open List

namespace TypeScript

open Text (fold IsAscii)
open Naming (bare)

namespace Alphabet

variable {a : Alphabet}

theorem isWord_ofList_cons (c : Char) (cs : List Char) :
    a.isWord (String.ofList (c :: cs)) = (a.isStart c && cs.all a.isPart) := by
  rw [isWord, String.toList_ofList]

theorem isWord_ofList_append_iff {stem ending : List Char}
    (h : isIdentifier ending = true) :
    a.isWord (String.ofList (stem ++ ending)) = true
      ↔ stem = [] ∨ a.isWord (String.ofList stem) = true := by
  have hword : a.isWord (String.ofList ending) = true :=
    isWord_of_isIdentifier (by rwa [String.toList_ofList])
  have hparts : ending.all a.isPart = true := by
    cases ending with
    | nil => rfl
    | cons c cs =>
      rw [isIdentifier, Bool.and_eq_true, all_eq_true] at h
      exact all_eq_true.2 fun d hd => isPart_of_isIdentifierPart (h.2 d hd)
  cases stem with
  | nil => simp [hword]
  | cons c cs =>
    rw [cons_append, isWord_ofList_cons, isWord_ofList_cons, all_append, hparts,
      Bool.and_true]
    simp

/-- An ending of letters makes a word of what is a word already, or
empty. -/
theorem isWord_append_iff {stem ending : String} (h : isIdentifier ending.toList = true) :
    a.isWord (stem ++ ending) = true ↔ stem = "" ∨ a.isWord stem = true := by
  have hiff := @isWord_ofList_append_iff a stem.toList _ h
  rwa [← String.toList_append, String.ofList_toList, String.ofList_toList,
    String.toList_eq_nil_iff] at hiff

/-! ## Letter case -/

/-- The characters of identifiers in ASCII: letter case does not matter, and
only a digit may not come first. -/
theorem ascii_identifier {c : Char} (h : c.toNat < 128) :
    isIdentifierStart c.toLower = isIdentifierStart c
      ∧ isIdentifierPart c.toLower = isIdentifierPart c
      ∧ (isIdentifierStart c = true → isIdentifierPart c = true)
      ∧ (c.isDigit = false → isIdentifierStart c = isIdentifierPart c) :=
  Text.of_ascii (P := fun c => isIdentifierStart c.toLower = isIdentifierStart c
      ∧ isIdentifierPart c.toLower = isIdentifierPart c
        ∧ (isIdentifierStart c = true → isIdentifierPart c = true)
      ∧ (c.isDigit = false → isIdentifierStart c = isIdentifierPart c))
    (by decide +kernel) h

theorem isStart_toLower (c : Char) : a.isStart c.toLower = a.isStart c := by
  by_cases h : c.toNat < 128
  · rw [a.isStart_ascii _ (Text.ascii_letter h).1, a.isStart_ascii c h,
      (ascii_identifier h).1]
  · rw [Text.toLower_of_not_ascii h]

theorem isPart_toLower (c : Char) : a.isPart c.toLower = a.isPart c := by
  by_cases h : c.toNat < 128
  · rw [a.isPart_ascii _ (Text.ascii_letter h).1, a.isPart_ascii c h,
      (ascii_identifier h).2.1]
  · rw [Text.toLower_of_not_ascii h]

theorem all_isPart_fold (cs : List Char) : (fold cs).all a.isPart = cs.all a.isPart := by
  rw [fold, all_map]
  exact all_congr rfl fun c => isPart_toLower c

theorem isWord_fold (cs : List Char) :
    a.isWord (String.ofList (fold cs)) = a.isWord (String.ofList cs) := by
  cases cs with
  | nil => rfl
  | cons c cs =>
    rw [isWord_ofList_cons, ← all_isPart_fold, ← isStart_toLower, ← isWord_ofList_cons]
    rfl

theorem isWord_congr {cs ds : List Char} (h : fold cs = fold ds) :
    a.isWord (String.ofList cs) = a.isWord (String.ofList ds) := by
  rw [← isWord_fold, h, isWord_fold]

theorem all_isPart {cs : List Char} (h : IsAscii cs) :
    cs.all a.isPart = cs.all isIdentifierPart := by
  rw [Bool.eq_iff_iff, all_eq_true, all_eq_true]
  exact forall₂_congr fun c hc => by rw [a.isPart_ascii c (h c hc)]

/-- In ASCII a word is an identifier. -/
theorem isWord_ofList {cs : List Char} (h : IsAscii cs) :
    a.isWord (String.ofList cs) = isIdentifier cs := by
  cases cs with
  | nil => rfl
  | cons c cs =>
    obtain ⟨hc, hcs⟩ := forall_mem_cons.1 h
    obtain ⟨-, -, hpart, -⟩ := ascii_identifier hc
    rw [isWord_ofList_cons, a.isStart_ascii c hc, all_isPart hcs, isIdentifier, all_cons]
    cases hstart : isIdentifierStart c with
    | false => rfl
    | true => simp [hpart hstart]

/-! ## Spelled names -/

section

variable {cs : List Char} (h : IsAscii cs)

include h

theorem isWord_pascalCase :
    a.isWord (String.ofList (Naming.pascalCase cs)) = isIdentifier (bare cs) := by
  rw [isWord_congr (Naming.fold_pascalCase h), isWord_ofList (Naming.isAscii_bare h)]

theorem isWord_camelCase :
    a.isWord (String.ofList (Naming.camelCase cs)) = isIdentifier (bare cs) := by
  rw [isWord_congr (Naming.fold_camelCase h), isWord_ofList (Naming.isAscii_bare h)]

theorem isWord_namespaceName :
    a.isWord (String.ofList (Naming.namespaceName cs)) = isIdentifier (bare cs) := by
  rw [isWord_congr (Naming.fold_namespaceName h), isWord_ofList (Naming.isAscii_bare h)]

end

theorem isWord_bare_plural {cs : List Char}
    (h : a.isWord (String.ofList (bare cs)) = true) :
    a.isWord (String.ofList (bare (Naming.plural cs))) = true := by
  rcases Naming.bare_plural cs with ⟨ending, hending, hplural⟩ | ⟨stem, hcs, hplural⟩
  · have hletters : ∀ ending ∈ ["s", "es"], isIdentifier ending.toList = true := by decide
    rw [hplural]
    exact (isWord_ofList_append_iff (hletters ending hending)).2 (.inr h)
  · rw [hcs] at h
    rw [hplural]
    exact (isWord_ofList_append_iff (by decide)).2
      ((isWord_ofList_append_iff (by decide)).1 h)

/-- The property of an entity is made from its type name, and is a word if
that is one. -/
theorem isWord_endpointName {cs : List Char} (h : IsAscii cs)
    (hword : isIdentifier (bare cs) = true) (single : Bool) :
    a.isWord (String.ofList (Naming.camelCase
      (Naming.endpointName (Naming.pascalCase cs) single))) = true := by
  have hkebab : bare (Naming.kebabCase (Naming.pascalCase cs)) = fold (bare cs) := by
    rw [Naming.bare_kebabCase, ← Naming.bare_fold, Naming.fold_pascalCase h,
      Naming.bare_fold, Naming.bare_bare]
  have hbase :
      a.isWord (String.ofList (bare (Naming.kebabCase (Naming.pascalCase cs))))
        = true := by
    rw [hkebab, isWord_fold, isWord_ofList (Naming.isAscii_bare h), hword]
  have hascii : IsAscii (Naming.kebabCase (Naming.pascalCase cs)) := by
    refine Naming.isAscii_of_bare ?_
    rw [hkebab, Text.isAscii_fold_iff]
    exact Naming.isAscii_bare h
  unfold Naming.endpointName
  split
  · rw [isWord_congr (Naming.fold_camelCase hascii), hbase]
  · rw [isWord_congr (Naming.fold_camelCase (Naming.isAscii_plural hascii)),
      isWord_bare_plural hbase]

end Alphabet

/-! ## Method names -/

/-- The characters of an action that separate nothing. -/
def bareAction (cs : List Char) : List Char :=
  cs.filter (!isActionSeparator ·)

theorem fold_camelAction {cs : List Char} (h : IsAscii cs) :
    fold (camelAction cs) = fold (bareAction cs) := by
  have hflatten := Text.flatten_pieces isActionSeparator cs
  unfold camelAction bareAction
  rw [← hflatten]
  split
  · rename_i hnil
    rw [hnil]
    rfl
  · rename_i first rest hpieces
    have hrest : ∀ piece ∈ rest, fold (Naming.capitalize piece) = fold piece :=
      fun piece hpiece => Naming.fold_capitalize
        (h.of_mem_pieces (hpieces ▸ mem_cons_of_mem first hpiece))
    rw [hpieces, flatten_cons, Text.fold_append, Naming.fold_flatten_map hrest,
      Text.fold_append]

/-- The low line in front of a digit leaves the other characters to look
at. -/
theorem Alphabet.isWord_methodName_iff {a : Alphabet} {action : String}
    (h : IsAscii action.toList) :
    a.isWord (methodName action) = true
      ↔ (bareAction action.toList).all isIdentifierPart = true := by
  have hbare : IsAscii (bareAction action.toList) := h.of_subset (filter_subset_self _)
  have hfold := fold_camelAction h
  have hascii : IsAscii (camelAction action.toList) := hbare.of_fold_eq hfold
  rw [← all_isPart (a := a) hbare, ← all_isPart_fold, ← hfold, all_isPart_fold]
  simp only [methodName]
  generalize camelAction action.toList = cs at hascii
  cases cs with
  | nil =>
    simp [isWord_of_isIdentifier (a := a)
      (show isIdentifier "_empty".toList = true by decide)]
  | cons c cs =>
    have hc := hascii c mem_cons_self
    rw [if_neg (cons_ne_nil c cs)]
    split
    · have hlow : a.isStart '_' = true := a.isStart_ascii '_' (by decide)
      have hname : "_" ++ String.ofList (c :: cs) = String.ofList ('_' :: c :: cs) := by
        apply String.toList_injective
        simp
      rw [hname, isWord_ofList_cons, hlow, Bool.true_and]
    · rename_i hplain
      have hdigit : c.isDigit = false := by
        simp only [head?_cons, Option.any_some, Bool.or_eq_true, not_or] at hplain
        simpa using hplain.1
      have hstart : isIdentifierStart c = isIdentifierPart c :=
        (ascii_identifier hc).2.2.2 hdigit
      rw [isWord_ofList_cons, a.isStart_ascii c hc,
        hstart, ← a.isPart_ascii c hc, all_cons]

end TypeScript

end TypedContent

import Mathlib
import TypedContent.Proofs.Source.Balanced
import TypedContent.Proofs.TypeScript.StringLiterals

/-!
# Tokens of printed types

The printed form of a type is read in two steps, and this is the first: a
scanner cuts the text into words, literals, numerals and punctuation
(`Alphabet.lex`). Which characters beyond ASCII make up words is left open,
so a printed type may refer to any name that is a word of the alphabet at
hand.

`TypeExpr.tokens` lists the tokens that a type should have. The text is put
together from pieces, and `Passes` says what the scanner does with one of
them: a piece that ends in a word or a numeral needs something behind it
that does not go on with it, and a piece with a line break between its
quotes stops the scanner. Pieces compose (`Passes.append`), so the scanner
finds the tokens of a type, on one line or on several, unless a quoted text
in it has a line break (`lexes_render`, `lexes_renderChain`).
-/

namespace TypedContent

open List

namespace TypeScript

variable {rest : List Char} {c : Char} {s s' : String} {b b' : Bool} {ts us : List Token}

/-- The characters of which words are made. Those of ASCII are fixed. -/
structure Alphabet where
  isStart : Char → Bool
  isPart : Char → Bool
  isStart_ascii : ∀ c : Char, c.toNat < 128 → isStart c = isIdentifierStart c
  isPart_ascii : ∀ c : Char, c.toNat < 128 → isPart c = isIdentifierPart c

def Alphabet.ascii : Alphabet :=
  ⟨isIdentifierStart, isIdentifierPart, fun _ _ => rfl, fun _ _ => rfl⟩

inductive Token where
  | word (name : String)
  | text (value : String)
  | number (value : Nat)
  | mark (c : Char)
deriving DecidableEq, Repr

/-- The punctuation of types. -/
def marks : List Char :=
  ['(', ')', '\x7b', '\x7d', '[', ']', '<', '>', ',', ';', ':', '?', '|', '&', '-']

/-- The characters that only separate tokens. -/
def isSpace (c : Char) : Bool :=
  c == ' ' || c == '\t' || c == '\n' || c == '\r'

theorem length_lt_of_readLiteral {cs : List Char} {value : String}
    (h : readLiteral cs = some (value, rest)) :
    rest.length < cs.length := by
  cases cs with
  | nil => cases h
  | cons c cs =>
    rw [readLiteral] at h
    split at h
    · obtain ⟨⟨units, after⟩, hscan, hvalue⟩ := Option.bind_eq_some_iff.1 h
      obtain ⟨text, -, hpair⟩ := Option.map_eq_some_iff.1 hvalue
      obtain ⟨-, rfl⟩ := Prod.mk.inj hpair
      obtain ⟨body, rfl, -⟩ := of_scanBody hscan
      rw [length_cons, length_append, length_cons]
      omega
    · cases h

namespace Alphabet

/-- The tokens of a text. A numeral must not run into a word. -/
def lex (a : Alphabet) (cs : List Char) : Option (List Token) :=
  match cs with
  | [] => some []
  | c :: cs =>
    if isSpace c then lex a cs
    else if c = '"' then
      match _h : readLiteral (c :: cs) with
      | none => none
      | some (value, rest) => (lex a rest).map (.text value :: ·)
    else if c.isDigit then
      if (cs.dropWhile Char.isDigit).head?.any a.isPart then none
      else
        (lex a (cs.dropWhile Char.isDigit)).map
          (.number (Nat.ofDigitChars 10 (c :: cs.takeWhile Char.isDigit) 0) :: ·)
    else if a.isStart c then
      (lex a (cs.dropWhile a.isPart)).map
        (.word (String.ofList (c :: cs.takeWhile a.isPart)) :: ·)
    else if c ∈ marks then (lex a cs).map (.mark c :: ·)
    else none
termination_by cs.length
decreasing_by
  · exact Nat.lt_succ_self _
  · exact length_lt_of_readLiteral _h
  · exact Nat.lt_succ_of_le (List.dropWhile_suffix _).length_le
  · exact Nat.lt_succ_of_le (List.dropWhile_suffix _).length_le
  · exact Nat.lt_succ_self _

/-- Whether a name is a word. -/
def isWord (a : Alphabet) (name : String) : Bool :=
  match name.toList with
  | [] => false
  | c :: cs => a.isStart c && cs.all a.isPart

/-- What follows does not go on with a word. -/
def Bounds (a : Alphabet) (rest : List Char) : Prop :=
  ∀ c ∈ rest.head?, a.isPart c = false

/-! ## Single tokens -/

variable {a : Alphabet}

theorem lex_nil : a.lex [] = some [] := by
  rw [lex]

theorem lex_space (h : isSpace c = true) (cs : List Char) :
    a.lex (c :: cs) = a.lex cs := by
  rw [lex, if_pos h]

theorem lex_text (s : String) (rest : List Char) :
    a.lex ((quoted s).toList ++ rest)
      = if s.toList.any isLineBreak then none else (a.lex rest).map (.text s :: ·) := by
  have hread := readLiteral_quoted s rest
  have hopening : (quoted s).toList ++ rest
      = '"' :: ((escape s).toList ++ '"' :: rest) := by simp [quoted]
  rw [hopening] at hread ⊢
  rw [lex, if_neg (by decide), if_pos rfl]
  split
  · rename_i hnone
    rw [hread] at hnone
    split at hnone
    · rename_i hbreak
      rw [if_pos hbreak]
    · cases hnone
  · rename_i value rest' hsome
    rw [hread] at hsome
    split at hsome
    · cases hsome
    · rename_i hbreak
      obtain ⟨rfl, rfl⟩ := Prod.mk.inj (Option.some.inj hsome)
      rw [if_neg hbreak]

theorem isDigit_ascii (h : c.isDigit = true) :
    c.toNat < 128 ∧ isIdentifierPart c = true := by
  refine ⟨?_, by simp [isIdentifierPart, Char.isAlphanum, h]⟩
  simp only [Char.isDigit, Bool.and_eq_true, decide_eq_true_eq] at h
  have hle : c.toNat ≤ 57 := h.2
  omega

/-- Spaces, quotes and digits do not start words. -/
theorem of_isStart (h : a.isStart c = true) :
    isSpace c = false ∧ c ≠ '"' ∧ c.isDigit = false := by
  have hascii : c.toNat < 128 → isIdentifierStart c = true :=
    fun hc => a.isStart_ascii c hc ▸ h
  refine ⟨Bool.eq_false_iff.2 fun hspace => ?_, fun hquote => ?_,
    Bool.eq_false_iff.2 fun hdigit => ?_⟩
  · simp only [isSpace, Bool.or_eq_true, beq_iff_eq] at hspace
    rcases hspace with ((rfl | rfl) | rfl)
      | rfl <;> exact absurd (hascii (by decide)) (by decide)
  · subst hquote
    exact absurd (hascii (by decide)) (by decide)
  · have hstart := hascii (isDigit_ascii hdigit).1
    simp only [Char.isDigit, Bool.and_eq_true, decide_eq_true_eq] at hdigit
    simp only [isIdentifierStart, Char.isAlpha, Char.isUpper, Char.isLower,
      Bool.or_eq_true, Bool.and_eq_true, decide_eq_true_eq, beq_iff_eq] at hstart
    obtain ⟨hlow, hhigh⟩ := hdigit
    rcases hstart with ((hupper | hlower) | rfl) | rfl
    · exact absurd (UInt32.le_trans hupper.1 hhigh) (by decide)
    · exact absurd (UInt32.le_trans hlower.1 hhigh) (by decide)
    · exact absurd hhigh (by decide)
    · exact absurd hlow (by decide)

theorem lex_word {name : String} (h : a.isWord name = true) (hrest : a.Bounds rest) :
    a.lex (name.toList ++ rest) = (a.lex rest).map (.word name :: ·) := by
  unfold isWord at h
  split at h
  · cases h
  · rename_i c cs hname
    rw [Bool.and_eq_true, all_eq_true] at h
    obtain ⟨hspace, hquote, hdigit⟩ := of_isStart h.1
    have htake : rest.takeWhile a.isPart = [] ∧ rest.dropWhile a.isPart = rest := by
      cases rest with
      | nil => exact ⟨rfl, rfl⟩
      | cons d ds => simp [hrest d rfl]
    rw [hname, cons_append, lex, if_neg (Bool.eq_false_iff.1 hspace), if_neg hquote,
      if_neg (Bool.eq_false_iff.1 hdigit), if_pos h.1, dropWhile_append_of_pos h.2,
      takeWhile_append_of_pos h.2, htake.1, htake.2, append_nil, ← hname,
      String.ofList_toList]

theorem lex_number (n : Nat) (hrest : a.Bounds rest) :
    a.lex (Nat.toDigits 10 n ++ rest) = (a.lex rest).map (.number n :: ·) := by
  have hdigits : ∀ c ∈ Nat.toDigits 10 n, c.isDigit = true := fun c hc =>
    Nat.isDigit_of_mem_toDigits (by decide) (by decide) hc
  have hvalue := Nat.ofDigitChars_toDigits (b := 10) (n := n) (by decide) (by decide)
  cases hspelled : Nat.toDigits 10 n with
  | nil => exact absurd hspelled Nat.toDigits_ne_nil
  | cons c cs =>
    rw [hspelled, forall_mem_cons] at hdigits
    rw [hspelled] at hvalue
    have hspace : isSpace c = false := by
      refine Bool.eq_false_iff.2 fun hspace => ?_
      simp only [isSpace, Bool.or_eq_true, beq_iff_eq] at hspace
      rcases hspace with ((rfl | rfl) | rfl) | rfl <;> exact absurd hdigits.1 (by decide)
    have hquote : c ≠ '"' := by
      rintro rfl
      exact absurd hdigits.1 (by decide)
    have htake :
        rest.takeWhile Char.isDigit = [] ∧ rest.dropWhile Char.isDigit = rest := by
      cases rest with
      | nil => exact ⟨rfl, rfl⟩
      | cons d ds =>
        have hd : d.isDigit = false := by
          refine Bool.eq_false_iff.2 fun hdigit => ?_
          have hpart := hrest d rfl
          rw [a.isPart_ascii d (isDigit_ascii hdigit).1,
            (isDigit_ascii hdigit).2] at hpart
          cases hpart
        simp [hd]
    have hbounds : ¬ (rest.head?.any a.isPart = true) := by
      cases rest with
      | nil => exact Bool.false_ne_true
      | cons d ds => simpa using hrest d rfl
    rw [List.cons_append, lex, if_neg (Bool.eq_false_iff.1 hspace), if_neg hquote,
      if_pos hdigits.1, List.dropWhile_append_of_pos hdigits.2,
      List.takeWhile_append_of_pos hdigits.2, htake.1, htake.2, List.append_nil, hvalue,
      if_neg hbounds]

theorem of_mem_marks :
    ∀ c ∈ marks, isSpace c = false ∧ c ≠ '"' ∧ c.isDigit = false ∧ c.toNat < 128
    ∧ isIdentifierStart c = false ∧ isIdentifierPart c = false := by
  decide

theorem lex_mark (h : c ∈ marks) (cs : List Char) :
    a.lex (c :: cs) = (a.lex cs).map (.mark c :: ·) := by
  obtain ⟨hspace, hquote, hdigit, hascii, hstart, -⟩ := of_mem_marks c h
  rw [lex, if_neg (Bool.eq_false_iff.1 hspace), if_neg hquote,
    if_neg (Bool.eq_false_iff.1 hdigit), if_neg
    (by rw [a.isStart_ascii c hascii, hstart]; exact Bool.false_ne_true), if_pos h]

/-! ## Pieces of a text -/

/-- In front of any text with the property `p`, the scanner turns a piece
into the given tokens, or stops in it. -/
def Passes (a : Alphabet) (p : List Char → Prop) (s : String) (isBroken : Bool)
    (ts : List Token) : Prop :=
  ∀ rest, p rest → a.lex (s.toList ++ rest) = if isBroken then none
    else (a.lex rest).map (ts ++ ·)

/-- A piece that may end in a word: what follows must not go on with it. -/
abbrev Lexes (a : Alphabet) (s : String) (isBroken : Bool) (ts : List Token) : Prop :=
  a.Passes a.Bounds s isBroken ts

/-- A piece that ends in a space or a punctuation mark: anything may
follow. -/
abbrev Opens (a : Alphabet) (s : String) (isBroken : Bool) (ts : List Token) : Prop :=
  a.Passes (fun _ => True) s isBroken ts

/-- A piece that does not go on with a word in front of it. -/
def Begins (a : Alphabet) (s : String) : Prop :=
  ∃ c cs, s.toList = c :: cs ∧ a.isPart c = false

theorem Passes.append {p q : List Char → Prop} (h : a.Passes p s b ts)
    (h' : a.Passes q s' b' us) (hnext : ∀ rest, q rest → p (s'.toList ++ rest)) :
    a.Passes q (s ++ s') (b || b') (ts ++ us) := by
  intro rest hrest
  rw [String.toList_append, append_assoc, h _ (hnext rest hrest), h' rest hrest]
  cases b with
  | true => rfl
  | false =>
    cases b' with
    | true => rfl
    | false => simp [Function.comp_def]

theorem Passes.lexes (h : a.Opens s b ts) : a.Lexes s b ts :=
  fun rest _ => h rest trivial

theorem Passes.andThen {p : List Char → Prop} (h : a.Opens s b ts)
    (h' : a.Passes p s' b' us) :
    a.Passes p (s ++ s') (b || b') (ts ++ us) :=
  h.append h' fun _ _ => trivial

theorem Passes.closedBy (h : a.Lexes s b ts) (h' : a.Opens s' b' us)
    (hbegins : a.Begins s') :
    a.Opens (s ++ s') (b || b') (ts ++ us) := by
  refine h.append h' fun rest _ d hd => ?_
  obtain ⟨c, cs, hs', hc⟩ := hbegins
  rw [hs', cons_append, head?_cons, Option.mem_some_iff] at hd
  rwa [← hd]

theorem passes_empty (a : Alphabet) : a.Opens "" false [] := by
  intro rest _
  simp

theorem lexes_word {name : String} (h : a.isWord name = true) :
    a.Lexes name false [.word name] :=
  fun _ hrest => lex_word h hrest

theorem lexes_text (a : Alphabet) (s : String) :
    a.Opens (quoted s) (s.toList.any isLineBreak) [.text s] :=
  fun rest _ => lex_text s rest

/-- Spaces and punctuation. -/
def isPunctuation (c : Char) : Bool :=
  isSpace c || marks.contains c

theorem isPart_of_isPunctuation (h : isPunctuation c = true) : a.isPart c = false := by
  rw [isPunctuation, Bool.or_eq_true] at h
  rcases h with hspace | hmark
  · simp only [isSpace, Bool.or_eq_true, beq_iff_eq] at hspace
    rcases hspace with ((rfl | rfl) | rfl) | rfl <;> exact a.isPart_ascii _ (by decide)
  · obtain ⟨-, -, -, hascii, -, hpart⟩ := of_mem_marks c (contains_iff_mem.1 hmark)
    rw [a.isPart_ascii c hascii, hpart]

theorem begins_of_isPunctuation (h : s.toList.head?.any isPunctuation = true) :
    a.Begins s := by
  cases hs : s.toList with
  | nil =>
    rw [hs] at h
    cases h
  | cons c cs =>
    rw [hs] at h
    exact ⟨c, cs, hs, isPart_of_isPunctuation h⟩

/-- The tokens of a text of spaces and punctuation. -/
def punctuation (s : String) : List Token :=
  (s.toList.filter fun c => !isSpace c).map .mark

theorem opens_punctuation (h : s.toList.all isPunctuation = true) :
    a.Opens s false (punctuation s) := by
  intro rest _
  rw [punctuation]
  generalize s.toList = cs at h
  induction cs with
  | nil => simp
  | cons c cs ih =>
    rw [all_cons, Bool.and_eq_true] at h
    cases hspace : isSpace c with
    | true =>
      rw [cons_append, lex_space hspace, ih h.2]
      simp [hspace]
    | false =>
      have hmark : c ∈ marks := by simpa [isPunctuation, hspace] using h.1
      rw [cons_append, lex_mark hmark, ih h.2]
      simp [hspace, Function.comp_def]

theorem toNat_lt_of_isIdentifierPart (hc : isIdentifierPart c = true) :
    c.toNat < 128 := by
  simp only [isIdentifierPart, Char.isAlphanum, Char.isAlpha, Char.isUpper,
    Char.isLower, Char.isDigit, Bool.or_eq_true, Bool.and_eq_true, decide_eq_true_eq,
    beq_iff_eq] at hc
  rcases hc with ((((⟨_, hle⟩ | ⟨_, hle⟩) | ⟨_, hle⟩) | rfl) | rfl)
  · exact Nat.lt_of_le_of_lt (show c.toNat ≤ 90 from hle) (by decide)
  · exact Nat.lt_of_le_of_lt (show c.toNat ≤ 122 from hle) (by decide)
  · exact Nat.lt_of_le_of_lt (show c.toNat ≤ 57 from hle) (by decide)
  · decide
  · decide

theorem isPart_of_isIdentifierPart (hc : isIdentifierPart c = true) :
    a.isPart c = true := by
  rw [a.isPart_ascii c (toNat_lt_of_isIdentifierPart hc), hc]

/-- A word of ASCII letters belongs to every alphabet. -/
theorem isWord_of_isIdentifier {name : String} (h : isIdentifier name.toList = true) :
    a.isWord name = true := by
  unfold isWord
  cases hname : name.toList with
  | nil =>
    rw [hname] at h
    cases h
  | cons c cs =>
    rw [hname, isIdentifier, all_cons, Bool.and_eq_true, Bool.and_eq_true,
      all_eq_true] at h
    obtain ⟨hstart, hpart, hparts⟩ := h
    rw [Bool.and_eq_true, all_eq_true]
    exact ⟨by rw [a.isStart_ascii c (toNat_lt_of_isIdentifierPart hpart), hstart],
      fun d hd => isPart_of_isIdentifierPart (hparts d hd)⟩

/-- A keyword with a space behind it. -/
theorem opens_keyword (name : String) (h : isIdentifier name.toList = true) :
    a.Opens (name ++ " ") false [.word name] := by
  have hspace : a.Opens " " false [] := opens_punctuation rfl
  exact (lexes_word (isWord_of_isIdentifier h)).closedBy hspace
    (begins_of_isPunctuation rfl)

theorem lexes_joinWith {β : Type} {sep : String} {t : Token}
    (hsep : a.Opens sep false [t]) (hbegins : a.Begins sep) {text : β → String}
    {broken : β → Bool} {toks : β → List Token} {bs : List β}
    (h : ∀ b ∈ bs, a.Lexes (text b) (broken b) (toks b)) :
    a.Lexes (Text.joinWith sep (bs.map text)) (bs.any broken)
      ([t].intercalate (bs.map toks)) := by
  induction bs with
  | nil => exact (passes_empty a).lexes
  | cons b bs ih =>
    rw [forall_mem_cons] at h
    cases bs with
    | nil => simpa [Text.joinWith] using h.1
    | cons b' bs =>
      have hjoin := (h.1.closedBy hsep hbegins).andThen (ih h.2)
      simpa [Text.joinWith, List.intercalate, List.intersperse] using hjoin

theorem lexes_parenthesize (h : a.Lexes s b ts) (needed : Bool) :
    a.Lexes (parenthesize needed s) b
      (if needed then .mark '(' :: (ts ++ [.mark ')']) else ts) := by
  cases needed with
  | false => exact h
  | true =>
    have hopening : a.Opens "(" false [.mark '('] := opens_punctuation rfl
    have hclosing : a.Opens ")" false [.mark ')'] := opens_punctuation rfl
    have hparens := hopening.andThen (h.closedBy hclosing (begins_of_isPunctuation rfl))
    simpa [parenthesize, String.append_assoc] using hparens.lexes

end Alphabet

end TypeScript

end TypedContent

import Mathlib.Data.List.DropRight
import Mathlib.Data.List.TakeWhile
import TypedContent.Proofs.Source.Lexing
import TypedContent.Proofs.Source.Members

/-!
# Keys

What stands in front of the value of an entry: a key in quotes, with blanks
and a question mark between it and the colon, or any other text without a
colon. `KeyForm` lists the two, and `keyed?` reads exactly these
(`keyed?_eq_some_iff`). What follows the colon is the value, whatever it is
(`KeyForm.exists_front`).
-/

namespace TypedContent

namespace Source

open List Text

variable {text key name value cs blanks : List Char} {isOptional : Bool}
  {c quote : Char}

/-! ## Blanks at the ends -/

theorem trimStart_append (h : ∃ c ∈ cs, isBlank c = false) (rest : List Char) :
    trimStart (cs ++ rest) = trimStart cs ++ rest := by
  have hne : (cs.dropWhile isBlank).isEmpty = false := by
    obtain ⟨c, hc, hblank⟩ := h
    cases hdrop : cs.dropWhile isBlank with
    | nil =>
      have hall := dropWhile_eq_nil_iff.1 hdrop c hc
      rw [hblank] at hall
      cases hall
    | cons => rfl
  rw [trimStart, dropWhile_append, hne]
  rfl

theorem trimEnd_append_cons (h : isBlank c = false) (before after : List Char) :
    trimEnd (before ++ c :: after) = before ++ c :: trimEnd after := by
  unfold trimEnd
  have hnot : ¬ isBlank c = true := by simp [h]
  rw [reverse_append, reverse_cons, append_assoc, dropWhile_append]
  split
  · rename_i hnil
    rw [List.isEmpty_iff] at hnil
    rw [hnil, singleton_append, dropWhile_cons_of_neg hnot]
    simp
  · simp

theorem trimStart_append_cons (h : isBlank c = false) (before after : List Char) :
    trimStart (before ++ c :: after) = trimStart before ++ c :: after := by
  rw [trimStart, dropWhile_append]
  split
  · rename_i hnil
    rw [List.isEmpty_iff] at hnil
    rw [trimStart, hnil, dropWhile_cons_of_neg (by simp [h]), nil_append]
  · rfl

theorem trim_append_cons (h : isBlank c = false) (before after : List Char) :
    trim (before ++ c :: after) = trimStart before ++ c :: trimEnd after := by
  rw [trim, trimStart_append_cons h, trimEnd_append_cons h]

theorem exists_trimEnd_append (cs : List Char) :
    ∃ blanks, cs = trimEnd cs ++ blanks ∧ ∀ c ∈ blanks, isBlank c = true := by
  refine ⟨(cs.reverse.takeWhile isBlank).reverse, ?_, ?_⟩
  · rw [trimEnd, ← reverse_append, takeWhile_append_dropWhile, reverse_reverse]
  · intro c hc
    exact mem_takeWhile_imp (mem_reverse.1 hc)

theorem trimEnd_append_blanks (h : ∀ c ∈ blanks, isBlank c = true) (cs : List Char) :
    trimEnd (cs ++ blanks) = trimEnd cs := by
  have hdrop : ∀ c ∈ blanks.reverse, isBlank c = true :=
    fun c hc => h c (mem_reverse.1 hc)
  rw [trimEnd, reverse_append, dropWhile_append_of_pos hdrop, trimEnd]

theorem trimEnd_eq_nil (h : ∀ c ∈ cs, isBlank c = true) : trimEnd cs = [] :=
  trimEnd_append_blanks h []

theorem trim_append_blanks (h : ∀ c ∈ blanks, isBlank c = true) (cs : List Char) :
    trim (cs ++ blanks) = trim cs := by
  rw [trim, trim, trimStart, dropWhile_append]
  split
  · rename_i hnil
    rw [List.isEmpty_iff] at hnil
    rw [trimStart, hnil]
    exact trimEnd_eq_nil fun c hc => h c (dropWhile_suffix _ |>.subset hc)
  · exact trimEnd_append_blanks h _

theorem isBlank_of_trimStart (h : trimStart (c :: cs) = c :: cs) : isBlank c = false := by
  cases hblank : isBlank c with
  | false => rfl
  | true =>
    have hlength : (trimStart (c :: cs)).length ≤ cs.length := by
      rw [trimStart, dropWhile_cons_of_pos hblank]
      exact (dropWhile_suffix _).length_le
    rw [h, length_cons] at hlength
    omega

theorem trim_trim (cs : List Char) : trim (trim cs) = trim cs := by
  have hend : ∀ rest, trimEnd (trimEnd rest) = trimEnd rest := fun rest => by
    rw [trimEnd, trimEnd, reverse_reverse, dropWhile_idempotent]
  rw [trim, trim]
  cases hstart : trimStart cs with
  | nil => rfl
  | cons c rest =>
    have hc : isBlank c = false :=
      isBlank_of_trimStart (by rw [← hstart]; exact dropWhile_idempotent _ _)
    have hcons : trimEnd (c :: rest) = c :: trimEnd rest := trimEnd_append_cons hc [] rest
    have hcons' : trimEnd (c :: trimEnd rest) = c :: trimEnd (trimEnd rest) :=
      trimEnd_append_cons hc [] _
    rw [hcons, trimStart_cons hc, hcons', hend]

/-! ## Literals -/

theorem literalRest_cons (h : c ≠ '\\') (cs : List Char) :
    literalRest quote (c :: cs)
      = if c = quote then ([c], cs)
        else (c :: (literalRest quote cs).1, (literalRest quote cs).2) := by
  rw [literalRest]
  rintro d ds rfl
  exact absurd rfl h

/-- What follows an opening quote, up to the closing quote and with it. -/
structure IsClosedLiteral (quote : Char) (body : List Char) : Prop where
  ends : body.getLast? = some quote
  rest : ∀ more, literalRest quote (body ++ more) = (body, more)

theorem isClosedLiteral_of_literalRest (h : (literalRest quote cs).2 ≠ []) :
    IsClosedLiteral quote (literalRest quote cs).1 := by
  fun_induction literalRest quote cs with
  | case1 => exact absurd rfl h
  | case2 c cs body rest hrest ih =>
    rw [hrest] at ih
    obtain ⟨hends, hmore⟩ := ih h
    refine ⟨?_, fun more => ?_⟩
    · rw [getLast?_cons_cons, getLast?_cons, hends]
      rfl
    · rw [cons_append, cons_append, literalRest, hmore]
  | case3 cs hescape =>
    have hquote : quote ≠ '\\' := by
      rintro rfl
      obtain ⟨d, ds, rfl⟩ := exists_cons_of_ne_nil h
      exact hescape d ds rfl rfl
    refine ⟨rfl, fun more => ?_⟩
    rw [singleton_append, literalRest_cons hquote, if_pos rfl]
  | case4 c cs hescape hc body rest hrest ih =>
    have hbackslash : c ≠ '\\' := by
      rintro rfl
      cases cs with
      | nil =>
        obtain ⟨-, rfl⟩ := Prod.mk.inj hrest
        exact h rfl
      | cons d ds => exact hescape d ds rfl rfl
    rw [hrest] at ih
    obtain ⟨hends, hmore⟩ := ih h
    refine ⟨?_, fun more => ?_⟩
    · rw [getLast?_cons, hends]
      rfl
    · rw [cons_append, literalRest_cons hbackslash, if_neg hc, hmore]

/-! ## Reading a key -/

/-- The key of an entry as it is written, the key without its question mark,
whether it has one, and what follows the colon. -/
def keyed? (text : List Char) : Option (List Char × List Char × Bool × List Char) := do
  let (key, rest) ← splitKey? text
  let (name, isOptional, rest) := splitOptional (trim key) (trimStart rest)
  let value ← [':'].isPrefixOf? rest
  return (trim key, name, isOptional, value)

theorem keyed?_eq (text : List Char) :
    keyed? text = (splitKey? text).bind fun split =>
      ([':'].isPrefixOf? (splitOptional (trim split.1) (trimStart split.2)).2.2).bind
        fun value =>
        some (trim split.1, (splitOptional (trim split.1) (trimStart split.2)).1,
          (splitOptional (trim split.1) (trimStart split.2)).2.1, value) := rfl

theorem cutAt?_eq_some {sep : Char} {before after : List Char}
    (h : cutAt? [sep] cs = some (before, after)) :
    cs = before ++ sep :: after ∧ sep ∉ before := by
  induction cs generalizing before with
  | nil => cases h
  | cons c cs ih =>
    rw [cutAt?] at h
    split at h
    · rename_i rest hhead
      rw [isPrefixOf?_eq_some_iff_append_eq] at hhead
      obtain ⟨rfl, rfl⟩ := Prod.mk.inj (Option.some.inj h)
      exact ⟨hhead.symm, not_mem_nil⟩
    · rename_i hhead
      obtain ⟨⟨before', after'⟩, hcut, hpair⟩ := Option.map_eq_some_iff.1 h
      obtain ⟨rfl, rfl⟩ := Prod.mk.inj hpair
      obtain ⟨rfl, hnot⟩ := ih hcut
      have hne : sep ≠ c := by
        rintro rfl
        simp [List.isPrefixOf?] at hhead
      exact ⟨rfl, not_mem_cons_of_ne_of_not_mem hne hnot⟩

theorem splitOptional_mark (key after : List Char) :
    splitOptional key ('?' :: after) = (key, true, trimStart after) := rfl

theorem splitOptional_of_ne {rest : List Char} (h : rest.head? ≠ some '?')
    (key : List Char) :
    splitOptional key rest
      = (((['?'].isSuffixOf? key).map trim).getD key,
        (['?'].isSuffixOf? key).isSome, rest) := by
  unfold splitOptional
  split
  · exact absurd rfl h
  · cases ['?'].isSuffixOf? key <;> rfl

/-- What follows a key and its question mark is an end of what follows the
key. -/
theorem splitOptional_suffix (key rest : List Char) :
    (splitOptional key rest).2.2 <:+ rest := by
  by_cases h : rest.head? = some '?'
  · obtain ⟨after, rfl⟩ := head?_eq_some_iff.1 h
    exact (dropWhile_suffix _).trans (suffix_cons _ _)
  · simp only [splitOptional_of_ne h, suffix_rfl]

/-! ## Forms of keys -/

/-- The name of a key without quotes. -/
def plainName (key : List Char) : List Char :=
  ((['?'].isSuffixOf? (trim key)).map trim).getD (trim key)

/-- Whether a key without quotes has a question mark. -/
def isMarked (key : List Char) : Bool :=
  (['?'].isSuffixOf? (trim key)).isSome

/-- Blanks, with a question mark among them or not. -/
inductive IsMark : Bool → List Char → Prop where
  | absent {blanks : List Char} (h : ∀ c ∈ blanks, isBlank c = true) : IsMark false blanks
  | present {before after : List Char} (hbefore : ∀ c ∈ before, isBlank c = true)
      (hafter : ∀ c ∈ after, isBlank c = true) : IsMark true (before ++ '?' :: after)

/-- An entry text, its key as it is written, the name in it, whether it has
a question mark, and the value. -/
inductive KeyForm : List Char → List Char → List Char → Bool → List Char → Prop where
  | plain {key value : List Char} (hcolon : ':' ∉ key)
      (hquote : startsKeyQuote key = false) :
      KeyForm (key ++ ':' :: value) (trim key) (plainName key) (isMarked key) value
  | quoted {quote : Char} {body mark value : List Char} {isOptional : Bool}
      (hquote : isKeyQuote quote = true)
      (hbody : IsClosedLiteral quote body) (hmark : IsMark isOptional mark) :
      KeyForm (quote :: body ++ (mark ++ ':' :: value)) (quote :: body)
        (quote :: body) isOptional value

theorem KeyForm.exists_front
    (h : KeyForm text key name isOptional value) :
    ∃ front, text = front ++ ':' :: value
      ∧ ∀ value', KeyForm (front ++ ':' :: value') key name isOptional value' := by
  cases h with
  | plain hcolon hquote => exact ⟨_, rfl, fun value' => .plain hcolon hquote⟩
  | @quoted quote body mark value isOptional hquote hbody hmark =>
    refine ⟨quote :: body ++ mark, by rw [append_assoc], fun value' => ?_⟩
    rw [append_assoc]
    exact .quoted hquote hbody hmark

theorem trimStart_blanks_append (h : ∀ c ∈ blanks, isBlank c = true)
    (hc : isBlank c = false) (rest : List Char) :
    trimStart (blanks ++ c :: rest) = c :: rest := by
  rw [trimStart_append_cons hc, trimStart, dropWhile_eq_nil_iff.2 h, nil_append]

theorem splitOptional_of_isMark {mark : List Char} (hmark : IsMark isOptional mark)
    (hkey : ['?'].isSuffixOf? key = none) (value : List Char) :
    splitOptional key (trimStart (mark ++ ':' :: value))
      = (key, isOptional, ':' :: value) := by
  have hcolon : isBlank ':' = false := rfl
  cases hmark with
  | absent h =>
    rw [trimStart_blanks_append h hcolon, splitOptional_of_ne (by simp), hkey]
    rfl
  | present hbefore hafter =>
    rw [append_assoc, cons_append, trimStart_blanks_append hbefore rfl,
      splitOptional_mark, trimStart_blanks_append hafter hcolon]

theorem exists_isMark {rest : List Char}
    (h : (splitOptional key (trimStart rest)).2.2 = ':' :: value) :
    ∃ isOptional mark, IsMark isOptional mark ∧ rest = mark ++ ':' :: value := by
  have hsplit : ∀ cs : List Char, cs = cs.takeWhile isBlank ++ trimStart cs :=
    fun cs => takeWhile_append_dropWhile.symm
  have hblank : ∀ cs : List Char, ∀ c ∈ cs.takeWhile isBlank, isBlank c = true :=
    fun _ _ => mem_takeWhile_imp
  by_cases hmark : (trimStart rest).head? = some '?'
  · obtain ⟨after, hafter⟩ := head?_eq_some_iff.1 hmark
    rw [hafter, splitOptional_mark] at h
    refine ⟨true, _, .present (hblank rest) (hblank after), ?_⟩
    rw [append_assoc, cons_append, ← h, ← hsplit after, ← hafter]
    exact hsplit rest
  · rw [splitOptional_of_ne hmark] at h
    refine ⟨false, _, .absent (hblank rest), ?_⟩
    rw [← h]
    exact hsplit rest

theorem splitKey?_plain (hcolon : ':' ∉ key) (hquote : startsKeyQuote key = false)
    (value : List Char) : splitKey? (key ++ ':' :: value) = some (key, ':' :: value) := by
  have hcut := cutAt?_append hcolon value
  cases key with
  | nil => rfl
  | cons c cs =>
    have hc : isKeyQuote c = false := hquote
    rw [cons_append] at hcut ⊢
    rw [splitKey?, if_neg (by simp [hc]), hcut]
    rfl

theorem splitKey?_quoted {body : List Char} (hquote : isKeyQuote quote = true)
    (hbody : IsClosedLiteral quote body) (rest : List Char) :
    splitKey? (quote :: body ++ rest) = some (quote :: body, rest) := by
  rw [cons_append, splitKey?, if_pos hquote, hbody.rest]

theorem isKeyQuote_cases (h : isKeyQuote c = true) :
    isBlank c = false ∧ c ≠ '?' ∧ isQuote c = true := by
  simp only [isKeyQuote, Bool.or_eq_true, beq_iff_eq] at h
  rcases h with rfl | rfl <;> decide

/-- A quoted key ends in its quote. -/
theorem IsClosedLiteral.quoted_key {body : List Char} (hbody : IsClosedLiteral quote body)
    (hquote : isKeyQuote quote = true) :
    trim (quote :: body) = quote :: body ∧ ['?'].isSuffixOf? (quote :: body) = none := by
  obtain ⟨hblank, hmark, -⟩ := isKeyQuote_cases hquote
  obtain ⟨start, rfl⟩ := getLast?_eq_some_iff.1 hbody.ends
  constructor
  · exact trim_of_isSolid (isSolid_enclosed hblank hblank start)
  · refine isSuffixOf?_singleton_eq_none ?_
    rw [← cons_append, getLast?_append, getLast?_singleton, Option.some_or]
    exact fun heq => hmark (Option.some.inj heq)

theorem keyed?_eq_some_iff :
    keyed? text = some (key, name, isOptional, value)
      ↔ KeyForm text key name isOptional value := by
  constructor
  · intro h
    rw [keyed?_eq] at h
    obtain ⟨⟨written, rest⟩, hsplit, h⟩ := Option.bind_eq_some_iff.1 h
    obtain ⟨after, hcolon, h⟩ := Option.bind_eq_some_iff.1 h
    simp only [Option.some.injEq, Prod.mk.injEq] at h
    obtain ⟨rfl, rfl, rfl, rfl⟩ := h
    have hvalue := (isPrefixOf?_eq_some_iff_append_eq.1 hcolon).symm
    rw [singleton_append] at hvalue
    cases text with
    | nil => cases hsplit
    | cons c cs =>
      rw [splitKey?] at hsplit
      split at hsplit
      · rename_i hquote
        obtain ⟨rfl, rfl⟩ := Prod.mk.inj (Option.some.inj hsplit)
        have hne : (literalRest c cs).2 ≠ [] := by
          intro hnil
          have hsuffix :=
            splitOptional_suffix (trim (c :: (literalRest c cs).1)) (trimStart [])
          simp only [hnil] at hvalue
          rw [hvalue] at hsuffix
          cases suffix_nil.1 hsuffix
        have hbody := isClosedLiteral_of_literalRest hne
        obtain ⟨htrim, hsuffix⟩ := hbody.quoted_key hquote
        simp only [htrim] at hvalue ⊢
        obtain ⟨isOptional, mark, hmark, hrest⟩ := exists_isMark hvalue
        simp only [hrest, splitOptional_of_isMark hmark hsuffix]
        have htext : c :: cs = c :: (literalRest c cs).1 ++ (mark ++ ':' :: after) := by
          rw [← hrest, cons_append, literalRest_append]
        rw [htext]
        exact .quoted hquote hbody hmark
      · rename_i hquote
        obtain ⟨⟨before, after'⟩, hcut, hpair⟩ := Option.map_eq_some_iff.1 hsplit
        obtain ⟨rfl, rfl⟩ := Prod.mk.inj hpair
        obtain ⟨htext, hnot⟩ := cutAt?_eq_some hcut
        simp only [trimStart_cons (show isBlank ':' = false from rfl),
          splitOptional_of_ne (show (':' :: after').head? ≠ some '?' by simp)] at hvalue ⊢
        obtain ⟨-, rfl⟩ := List.cons.inj hvalue
        have hstarts : startsKeyQuote before = false := by
          cases before with
          | nil => rfl
          | cons b before =>
            obtain ⟨rfl, -⟩ := List.cons.inj htext
            simpa [startsKeyQuote] using hquote
        rw [htext]
        exact .plain hnot hstarts
  · intro h
    rw [keyed?_eq]
    cases h with
    | plain hcolon hquote =>
      rw [splitKey?_plain hcolon hquote, Option.bind_some, trimStart_cons rfl,
        splitOptional_of_ne (by simp)]
      rfl
    | quoted hquote hbody hmark =>
      obtain ⟨htrim, hsuffix⟩ := hbody.quoted_key hquote
      rw [splitKey?_quoted hquote hbody, Option.bind_some, htrim,
        splitOptional_of_isMark hmark hsuffix]
      rfl

/-- Once a key has been read with its colon, the rest of the entry is its
value. -/
theorem keyed?_append
    (h : keyed? text = some (key, name, isOptional, value)) (more : List Char) :
    keyed? (text ++ more) = some (key, name, isOptional, value ++ more) := by
  obtain ⟨front, rfl, hform⟩ := (keyed?_eq_some_iff.1 h).exists_front
  rw [append_assoc, cons_append]
  exact keyed?_eq_some_iff.2 (hform (value ++ more))

theorem keyed?_suffix
    (h : keyed? text = some (key, name, isOptional, value)) : ':' :: value <:+ text := by
  obtain ⟨front, rfl, -⟩ := (keyed?_eq_some_iff.1 h).exists_front
  exact List.suffix_append front _

end Source

end TypedContent

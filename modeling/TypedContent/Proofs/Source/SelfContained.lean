import TypedContent.Proofs.Source.Members
import TypedContent.Proofs.Source.TopLevelCuts

/-!
# Texts that are closed in themselves

A text that stands between others must not reach into them. Here this is
said about its lexemes: literals and comments are closed, brackets are
balanced, and none of the separators stands outside of all brackets
(`SelfContained`). What follows a closed lexeme is read as if it stood alone
(`lexemes_append`), so a separator behind such a text cuts it off as it is
(`SelfContained.segments_append_cons`). Text without brackets, separators
and slashes may be put in front (`Inert.selfContained_append`).

All three conditions can be checked by running the scans once over the text
(`selfContained_iff`).
-/

namespace TypedContent

namespace Source

open List Text

variable {cs : List Char}

/-! ## Closed lexemes -/

theorem lexemes_append {rest : List Char} (h : ∀ t ∈ lexemes cs, t.Precedes rest) :
    lexemes (cs ++ rest) = lexemes cs ++ lexemes rest := by
  induction cs using lexemes_induction with
  | nil => simp
  | @cons cs more t hread ih =>
    rw [lexemes_cons hread, forall_mem_cons] at h
    -- what follows the lexeme starts as before, or the lexeme was the last
    -- one
    have hnext : t.Precedes (more ++ rest) := by
      cases more with
      | nil => exact h.1
      | cons c more =>
        exact (precedes_of_lexeme? hread).congr (fun hnil => nomatch hnil) (.inl rfl)
    rw [(text_of_lexeme? hread).1, append_assoc, lexemes_cons hnext, ih h.2,
      lexemes_cons (precedes_of_lexeme? hread), cons_append]

theorem lexemes_code_cons {c : Char} (hquote : isQuote c = false) (hslash : c ≠ '/')
    (rest : List Char) :
    lexemes (c :: rest) = .code c :: lexemes rest :=
  lexemes_cons (precedes_code_iff.2 ⟨hquote, fun hc => absurd hc hslash⟩)

/-- The literals and comments of a text are closed. -/
def AllClosed (cs : List Char) : Prop :=
  ∀ t ∈ lexemes cs, t.IsClosed

/-- A literal or comment that is open would take a blank behind the text. -/
theorem allClosed_iff :
    AllClosed cs ↔ (marks (cs ++ [' '])).getLast? = some ⟨.code, ' '⟩ := by
  constructor
  · intro h
    rw [marks_eq_lexemes, lexemes_append h, lexemes_code_cons rfl (by decide),
      lexemes_nil, marksOf_append, getLast?_append]
    rfl
  · intro h
    obtain ⟨before, hbefore⟩ := getLast?_eq_some_iff.1 h
    obtain ⟨xs, ys, hlexemes, -, hys⟩ := marks_eq_append_iff.1 hbefore
    have htext := textOf_lexemes (cs ++ [' '])
    have hend : textOf ys = [] := by rw [← unmark_marksOf, hys]; rfl
    have hlegible : Legible (xs ++ .code ' ' :: ys) := hlexemes ▸ legible_lexemes _
    rw [hlexemes, textOf_append, textOf_cons, hend] at htext
    obtain ⟨rfl, -⟩ := append_inj' htext rfl
    rw [AllClosed, lexemes_textOf hlegible.of_append_left]
    exact hlegible.isClosed (cons_ne_nil _ _)

theorem AllClosed.depthThrough_marks (h : AllClosed cs) :
    depthThrough 0 false (marks cs) = nesting (lexemes cs) := by
  rw [marks_eq_lexemes]
  exact depthThrough_marksOf (legible_lexemes cs).text_ne_nil
    (fun t ht hrole => (h t ht).getLast?_ne hrole) 0 false

/-! ## Separators -/

/-- A text is left whole if none of the separators stands in its code at
nesting depth zero. -/
theorem segments_eq_singleton_iff {separators : List Char}
    (hsep : ∀ c ∈ separators, opensNesting c = false ∧ closesNesting c = false) :
    segments separators cs = [cs] ↔ ∀ before, ∀ sep ∈ separators,
      ¬ IsTopLevel cs before sep := by
  have hsegments : (cutFrom separators 0 false (marks cs)).segments
      = segments separators cs := segments_cutFrom 0 false _
  have htext : (cutFrom separators 0 false (marks cs)).text = cs :=
    (text_cutFrom 0 false _).trans (unmark_marks cs)
  have hcuts (before : List Char) (sep : Char) :=
    @cutsAt_iff_isTopLevel sep before cs separators hsep
  generalize cutFrom separators 0 false (marks cs) = k at hsegments htext hcuts
  obtain ⟨first, rest⟩ := k
  rw [← hsegments]
  constructor
  · intro hone before sep hmem htop
    obtain ⟨left, segment, right, hrest, -⟩ := (hcuts before sep).2 ⟨hmem, htop⟩
    have hnil : rest.map Prod.snd = [] := (List.cons.inj hone).2
    rw [show rest = left ++ (sep, segment) :: right from hrest] at hnil
    simp at hnil
  · intro hnone
    cases rest with
    | nil =>
      rw [← htext]
      simp [Cutting.segments, Cutting.text]
    | cons cut rest =>
      have hcut := (hcuts first cut.1).1 ⟨[], cut.2, rest, rfl, by simp [Cutting.text]⟩
      exact absurd hcut.2 (hnone first cut.1 hcut.1)

/-- A text that is closed in itself: what stands around it is read as if it
were not there. -/
structure SelfContained (separators cs : List Char) : Prop where
  closed : AllClosed cs
  balanced : nesting (lexemes cs) = 0
  uncut : ∀ before, ∀ sep ∈ separators, ¬ IsTopLevel cs before sep

theorem selfContained_iff {separators : List Char}
    (hsep : ∀ c ∈ separators, opensNesting c = false ∧ closesNesting c = false) :
    SelfContained separators cs ↔ (marks (cs ++ [' '])).getLast? = some ⟨.code, ' '⟩
      ∧ depthThrough 0 false (marks cs) = 0 ∧ segments separators cs = [cs] := by
  constructor
  · rintro ⟨hclosed, hbalanced, huncut⟩
    exact ⟨allClosed_iff.1 hclosed, hclosed.depthThrough_marks.trans hbalanced,
      (segments_eq_singleton_iff hsep).2 huncut⟩
  · rintro ⟨hlast, hdepth, hsegments⟩
    have hclosed := allClosed_iff.2 hlast
    exact ⟨hclosed, hclosed.depthThrough_marks.symm.trans hdepth,
      (segments_eq_singleton_iff hsep).1 hsegments⟩

instance (cs : List Char) : Decidable (AllClosed cs) :=
  decidable_of_iff _ allClosed_iff.symm

instance (cs : List Char) : Decidable (SelfContained memberSeparators cs) :=
  decidable_of_iff _ (selfContained_iff (by decide)).symm

/-- A separator behind a text that is closed in itself cuts it off. -/
theorem SelfContained.segments_append_cons {separators : List Char}
    (h : SelfContained separators cs)
    (hsep : ∀ c ∈ separators, isPlain c = true ∧ c ≠ '*') {sep : Char}
    (hmem : sep ∈ separators) (rest : List Char) :
    segments separators (cs ++ sep :: rest) = cs :: segments separators rest := by
  obtain ⟨hplain, hstar⟩ := hsep sep hmem
  obtain ⟨hquote, hslash, hequals, hopens, hcloses⟩ := isPlain_iff.1 hplain
  have hmarks : marks (cs ++ sep :: rest) = marks cs ++ ⟨.code, sep⟩ :: marks rest := by
    have hnext : ∀ t ∈ lexemes cs, t.Precedes (sep :: rest) := fun t ht =>
      (h.closed t ht).precedes fun _ => ⟨by simpa using hslash, by simpa using hstar⟩
    rw [marks_eq_lexemes, lexemes_append hnext, lexemes_code_cons hquote hslash,
      marksOf_append, marksOf_cons, ← marks_eq_lexemes, ← marks_eq_lexemes]
    rfl
  have hbrackets : ∀ c ∈ separators,
      opensNesting c = false ∧ closesNesting c = false := fun c hc =>
    (isPlain_iff.1 (hsep c hc).1).2.2.2
  have hwhole : segmentsFrom separators 0 false (marks cs) = [] ++ [cs] :=
    (segments_eq_singleton_iff hbrackets).2 h.uncut
  have hdepth : depthThrough 0 false (marks cs) = 0 :=
    h.closed.depthThrough_marks.trans h.balanced
  have hcut : isCut separators 0 ⟨.code, sep⟩ = true := by
    simp [isCut, hmem, hopens, hcloses]
  have hflag : (sep == '=') = false := by simpa using hequals
  rw [segments, hmarks, segmentsFrom_append hwhole, hdepth, segmentsFrom, if_pos hcut,
    foldr_consSegment, append_nil, nil_append]
  exact congrArg (fun flag => cs :: segmentsFrom separators 0 flag (marks rest)) hflag

/-! ## In front of a text -/

/-- At depth zero nothing asks for the sign before it. -/
theorem nestingFrom_zero (afterEquals : Bool) (ts : List Lexeme) :
    nestingFrom 0 afterEquals ts = nesting ts := by
  rw [nesting]
  cases ts with
  | nil => rfl
  | cons t ts =>
    cases t with
    | literal text => rfl
    | comment text => rfl
    | code c =>
      rw [nestingFrom, nestingFrom]
      split
      · rfl
      · cases hcloses : closesNesting c with
        | false => rfl
        | true =>
          have hequals : (c == '=') = false := by
            rw [beq_eq_false_iff_ne]
            rintro rfl
            cases hcloses
          simp [hequals]

/-- A text that no scan reacts to, except for its literals and comments,
which are closed. -/
structure Inert (separators cs : List Char) : Prop where
  closed : AllClosed cs
  code : ∀ c, .code c ∈ lexemes cs →
    c ≠ '/' ∧ opensNesting c = false ∧ closesNesting c = false ∧ c ∉ separators

theorem lexemes_of_isPlainText {separators : List Char} (h : IsPlainText separators cs) :
    lexemes cs = cs.map Lexeme.code := by
  induction cs with
  | nil => simp
  | cons c cs ih =>
    rw [IsPlainText, forall_mem_cons] at h
    obtain ⟨hquote, hslash, -⟩ := isPlain_iff.1 h.1.1
    rw [lexemes_code_cons hquote hslash, ih h.2, map_cons]

namespace Inert

variable {separators : List Char}

theorem of_isPlainText (h : IsPlainText separators cs) : Inert separators cs := by
  constructor
  · intro t ht
    rw [lexemes_of_isPlainText h] at ht
    obtain ⟨c, hc, rfl⟩ := mem_map.1 ht
    obtain ⟨hquote, hslash, -⟩ := isPlain_iff.1 (h c hc).1
    exact precedes_code_iff.2 ⟨hquote, fun heq => absurd heq hslash⟩
  · intro c hc
    rw [lexemes_of_isPlainText h] at hc
    obtain ⟨d, hd, heq⟩ := mem_map.1 hc
    obtain rfl := Lexeme.code.inj heq
    obtain ⟨-, hslash, -, hopens, hcloses⟩ := isPlain_iff.1 (h d hd).1
    exact ⟨hslash, hopens, hcloses, (h d hd).2⟩

theorem of_quoted {quote : Char} {body : List Char} (hquote : isQuote quote = true)
    (hbody : IsClosedLiteral quote body) :
    Inert separators (quote :: body) := by
  have hnext (rest : List Char) :
      lexeme? (quote :: (body ++ rest)) = some (.literal (quote :: body), rest) := by
    rw [lexeme?_literal hquote, hbody.rest]
  have hone : lexemes (quote :: body) = [.literal (quote :: body)] := by
    have hend := hnext []
    rw [append_nil] at hend
    rw [lexemes_cons hend, lexemes_nil]
  constructor
  · intro t ht
    rw [hone] at ht
    obtain rfl := mem_singleton.1 ht
    exact hnext [' ']
  · intro c hc
    rw [hone] at hc
    cases mem_singleton.1 hc

variable {xs : List Char} (hxs : Inert separators xs)

include hxs

theorem lexemes_append (rest : List Char) :
    lexemes (xs ++ rest) = lexemes xs ++ lexemes rest :=
  Source.lexemes_append fun t ht => (hxs.closed t ht).precedes fun hslash =>
    absurd rfl (hxs.code '/' (hslash ▸ ht)).1

theorem marks_append (rest : List Char) :
    marks (xs ++ rest) = marks xs ++ marks rest := by
  rw [marks_eq_lexemes, hxs.lexemes_append,
    marksOf_append, ← marks_eq_lexemes, ← marks_eq_lexemes]

theorem nesting_append (ts : List Lexeme) : nesting (lexemes xs ++ ts) = nesting ts := by
  have hpass : ∀ us : List Lexeme,
      (∀ c, .code c ∈ us → opensNesting c = false ∧ closesNesting c = false) →
      ∀ afterEquals, nestingFrom 0 afterEquals (us ++ ts) = nesting ts := by
    intro us
    induction us with
    | nil => exact fun _ afterEquals => nestingFrom_zero afterEquals ts
    | cons u us ih =>
      intro hus afterEquals
      have hrest := ih fun c hc => hus c (mem_cons_of_mem _ hc)
      cases u with
      | literal text => exact hrest false
      | comment text => exact hrest false
      | code c =>
        obtain ⟨hopens, hcloses⟩ := hus c mem_cons_self
        simp only [cons_append, nestingFrom, hopens, hcloses, Bool.false_and,
          Bool.false_eq_true, if_false]
        exact hrest (c == '=')
  exact hpass _ (fun c hc => ⟨(hxs.code c hc).2.1, (hxs.code c hc).2.2.1⟩) false

/-- Inert text may stand in front of a text that is closed in itself. -/
theorem selfContained_append {ys : List Char} (hys : SelfContained separators ys) :
    SelfContained separators (xs ++ ys) where
  closed := by
    rw [AllClosed, hxs.lexemes_append]
    exact forall_mem_append.2 ⟨hxs.closed, hys.closed⟩
  balanced := by rw [hxs.lexemes_append, hxs.nesting_append, hys.balanced]
  uncut := by
    rintro before sep hmem ⟨scanned, later, hlexemes, -, hzero⟩
    rw [hxs.lexemes_append] at hlexemes
    rcases append_eq_append_iff.1 hlexemes with ⟨middle, rfl, hlater⟩
      | ⟨middle, hfront, hlater⟩
    · rw [hxs.nesting_append] at hzero
      exact hys.uncut _ sep hmem ⟨middle, later, hlater, rfl, hzero⟩
    · cases middle with
      | nil => exact hys.uncut [] sep hmem ⟨[], later, hlater.symm, rfl, rfl⟩
      | cons t middle =>
        obtain ⟨rfl, -⟩ := List.cons.inj hlater
        have hcode : .code sep ∈ lexemes xs := hfront ▸ mem_append_right _ mem_cons_self
        exact (hxs.code sep hcode).2.2.2 hmem

end Inert

end Source

end TypedContent

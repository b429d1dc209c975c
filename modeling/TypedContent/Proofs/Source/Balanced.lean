import TypedContent.Proofs.Source.Nesting

/-!
# Balanced texts

Blocks and parts are found by scanning marked text. A text is *balanced*
when a scan goes in and out of it without a trace: its literals are closed,
and its brackets and angle brackets match. `Balanced separators` also says
that none of the separators stands outside of all brackets.

Marking (`marks_append`), looking for a closing bracket (`nested`) and
cutting into segments (`segmentsFrom_append`) all pass over a balanced text
and go on behind it as if it had not been there. The grammar has
concatenation as a rule, so that a written text is shown balanced piece by
piece; the scanning lemmas speak about every continuation for the same
reason.
-/

namespace TypedContent

open List

namespace Source

variable {c opener closer : Char}

/-- Whether every character of a text has a property is decided on the text,
not on all characters there are. -/
instance (priority := 2000) decidableForallMem {p : Char → Prop} [DecidablePred p]
    (cs : List Char) :
    Decidable (∀ c ∈ cs, p c) :=
  List.decidableBAll p cs

/-! ## The grammar -/

/-- A character that no scan reacts to: no quote, no bracket, and neither
the start of a comment nor the sign before the tip of an arrow. -/
def isPlain (c : Char) : Bool :=
  !isQuote c && c != '/' && c != '=' && !opensNesting c && !closesNesting c

/-- A character that may stand between single quotes without ending or
escaping anything. -/
def isLiteralChar (c : Char) : Bool :=
  c != '\'' && c != '\\'

/-- A text between single quotes. -/
def singleQuoted (body : List Char) : List Char :=
  '\'' :: body ++ ['\'']

/-- The four pairs of brackets that nest. -/
def bracketPairs : List (Char × Char) :=
  [('{', '}'), ('[', ']'), ('(', ')'), ('<', '>')]

/-- Plain characters, none of them a separator. -/
def IsPlainText (separators cs : List Char) : Prop :=
  ∀ c ∈ cs, isPlain c = true ∧ c ∉ separators

-- not inferred: deciding a statement about all characters would go through
-- all of them
instance (separators cs : List Char) : Decidable (IsPlainText separators cs) :=
  List.decidableBAll (fun c => isPlain c = true ∧ c ∉ separators) cs

/-- Closed literals and matching brackets, with none of the separators
outside of all brackets. -/
inductive Balanced : List Char → List Char → Prop where
  | nil {separators} : Balanced separators []
  | plain {separators c} (hplain : isPlain c = true) (hsep : c ∉ separators) :
      Balanced separators [c]
  | literal {separators body} (hbody : ∀ c ∈ body, isLiteralChar c = true) :
      Balanced separators (singleQuoted body)
  | block {separators opener closer inner} (hpair : (opener, closer) ∈ bracketPairs)
      (hinner : Balanced [] inner) : Balanced separators (opener :: inner ++ [closer])
  | append {separators left right} (hleft : Balanced separators left)
      (hright : Balanced separators right) :
      Balanced separators (left ++ right)

namespace Balanced

variable {separators cs : List Char}

theorem ofPlain (h : IsPlainText separators cs) : Balanced separators cs := by
  induction cs with
  | nil => exact nil
  | cons c cs ih =>
    have hc := h c mem_cons_self
    exact append (plain hc.1 hc.2) (ih fun d hd => h d (mem_cons_of_mem _ hd))

theorem flatMap {α : Type} {f : α → List Char} {xs : List α}
    (h : ∀ x ∈ xs, Balanced separators (f x)) :
    Balanced separators (xs.flatMap f) := by
  induction xs with
  | nil => exact nil
  | cons x xs ih =>
    exact append (h x mem_cons_self) (ih fun y hy => h y (mem_cons_of_mem _ hy))

/-- Fewer separators are easier to avoid. -/
theorem weaken {fewer : List Char} (h : Balanced separators cs)
    (hsub : fewer ⊆ separators) :
    Balanced fewer cs := by
  induction h with
  | nil => exact nil
  | plain hplain hsep => exact plain hplain fun hmem => hsep (hsub hmem)
  | literal hbody => exact literal hbody
  | block hpair hinner => exact block hpair hinner
  | append _ _ ihleft ihright => exact append (ihleft hsub) (ihright hsub)

end Balanced

/-! ## Marking -/

theorem isPlain_iff :
    isPlain c = true ↔ isQuote c = false ∧ c ≠ '/' ∧ c ≠ '=' ∧ opensNesting c = false
      ∧ closesNesting c = false := by
  simp [isPlain, and_assoc]

theorem mem_bracketPairs :
    (opener, closer) ∈ bracketPairs
      ↔ (opener = '{' ∧ closer = '}') ∨ (opener = '[' ∧ closer = ']')
      ∨ (opener = '(' ∧ closer = ')') ∨ (opener = '<' ∧ closer = '>') := by
  simp [bracketPairs]

@[simp] theorem marks_nil : marks [] = [] := by
  simp [marks, mark]

/-- A character of the code that starts neither a literal nor a comment. -/
theorem marks_cons (hquote : isQuote c = false) (hslash : c ≠ '/') (rest : List Char) :
    marks (c :: rest) = ⟨.code, c⟩ :: marks rest := by
  unfold marks
  rw [mark]
  · simp [hquote]
  · rintro cs rfl
    exact absurd rfl hslash
  · rintro cs rfl
    exact absurd rfl hslash

/-- The inside of a literal, up to its closing quote. -/
theorem mark_literal {body : List Char} (hbody : ∀ c ∈ body, isLiteralChar c = true)
    (rest : List Char) :
    mark (.literal '\'') (body ++ '\'' :: rest)
      = body.map (Marked.mk .literal) ++ ⟨.literal, '\''⟩ :: marks rest := by
  induction body with
  | nil =>
    rw [nil_append, mark]
    · simp [marks]
    · simp
  | cons c cs ih =>
    have hc : c ≠ '\'' ∧ c ≠ '\\' := by simpa [isLiteralChar] using hbody c mem_cons_self
    rw [cons_append, mark]
    · simp [hc.1, ih fun d hd => hbody d (mem_cons_of_mem _ hd)]
    · rintro d ds rfl
      exact absurd rfl hc.2

theorem marks_singleQuoted {body : List Char}
    (hbody : ∀ c ∈ body, isLiteralChar c = true) (rest : List Char) :
    marks (singleQuoted body ++ rest)
      = (singleQuoted body).map (Marked.mk .literal) ++ marks rest := by
  have hquote : marks ('\'' :: (body ++ '\'' :: rest))
      = ⟨.literal, '\''⟩ :: mark (.literal '\'') (body ++ '\'' :: rest) := by
    unfold marks
    rw [mark]
    · simp [isQuote]
    · simp
    · simp
  simp only [singleQuoted, cons_append, append_assoc, nil_append]
  rw [hquote, mark_literal hbody]
  simp

/-- A bracket is a character of the code. -/
theorem marks_bracket (hpair : (opener, closer) ∈ bracketPairs) (rest : List Char) :
    marks (opener :: rest) = ⟨.code, opener⟩ :: marks rest
      ∧ marks (closer :: rest) = ⟨.code, closer⟩ :: marks rest := by
  rcases mem_bracketPairs.1 hpair with ⟨rfl, rfl⟩ | ⟨rfl, rfl⟩ | ⟨rfl, rfl⟩
    | ⟨rfl, rfl⟩ <;>
    exact ⟨marks_cons rfl (by decide) rest, marks_cons rfl (by decide) rest⟩

theorem Balanced.marks_append {separators cs : List Char} (h : Balanced separators cs)
    (rest : List Char) :
    marks (cs ++ rest) = marks cs ++ marks rest := by
  induction h generalizing rest with
  | nil => rfl
  | plain hplain hsep =>
    obtain ⟨hquote, hslash, -⟩ := isPlain_iff.1 hplain
    rw [singleton_append, marks_cons hquote hslash, marks_cons hquote hslash]
    rfl
  | literal hbody =>
    have hnil := marks_singleQuoted hbody []
    rw [append_nil] at hnil
    rw [marks_singleQuoted hbody, hnil]
    simp
  | block hpair hinner ih =>
    simp only [cons_append, append_assoc, nil_append]
    rw [(marks_bracket hpair _).1, (marks_bracket hpair _).1, ih, ih,
      (marks_bracket hpair _).2, (marks_bracket hpair _).2]
    simp
  | append _ _ ihleft ihright =>
    rw [append_assoc, ihleft, ihright, ihleft, append_assoc]

/-! ## Blocks -/

theorem isBracket_of_isPlain (h : isPlain c = true) : isBracket c = false := by
  obtain ⟨-, -, -, hopen, hclose⟩ := isPlain_iff.1 h
  simp only [opensNesting, closesNesting, Bool.or_eq_false_iff, beq_eq_false_iff_ne]
    at hopen hclose
  have hnone : closerOf? c = none := by
    unfold closerOf?
    split <;> simp_all
  simp [isBracket, hnone, isCloser, hclose]

/-- A balanced text closes what it opens and nothing else. -/
theorem Balanced.nested {separators cs : List Char} (h : Balanced separators cs) :
    nestAll? [] (marks cs) = some [] := by
  induction h with
  | nil => simp [nestAll?]
  | plain hplain hsep =>
    obtain ⟨hquote, hslash, -⟩ := isPlain_iff.1 hplain
    rw [marks_cons hquote hslash, marks_nil]
    exact nestAll?_of_not_bracket (by simp [isBracket_of_isPlain hplain]) []
  | literal hbody =>
    have hnil := marks_singleQuoted hbody []
    rw [append_nil] at hnil
    rw [hnil, marks_nil, append_nil]
    exact nestAll?_of_not_bracket (by simp) []
  | block hpair hinner ih =>
    rw [cons_append, (marks_bracket hpair _).1, hinner.marks_append,
      (marks_bracket hpair _).2, marks_nil]
    rcases mem_bracketPairs.1 hpair with ⟨rfl, rfl⟩ | ⟨rfl, rfl⟩ | ⟨rfl, rfl⟩ | ⟨rfl, rfl⟩
    · exact nestAll?_block rfl ih []
    · exact nestAll?_block rfl ih []
    · exact nestAll?_block rfl ih []
    · -- an angle bracket is no bracket of a block
      rw [← singleton_append, nestAll?_append_eq, nestAll?_of_not_bracket (by decide),
        Option.bind_some, nestAll?_append_eq, ih, Option.bind_some]
      exact nestAll?_of_not_bracket (by decide) []
  | append hleft _ ihleft ihright =>
    rw [hleft.marks_append, nestAll?_append_eq, ihleft, Option.bind_some, ihright]

/-- The block of a balanced text that stands behind its opening bracket. -/
theorem openedBlock?_eq (hcloser : closerOf? opener = some closer)
    (hpair : (opener, closer) ∈ bracketPairs) {separators inner : List Char}
    (h : Balanced separators inner) (after : List Char) :
    openedBlock? opener (marks (inner ++ closer :: after))
      = some { before := [], opener, inner, closer, after } := by
  have hpassed : enclosed? [closer] (marks inner ++ marks (closer :: after)) = _ :=
    enclosed?_append h.nested closer [] _
  have hfound :
      enclosed? [closer] (marks (inner ++ closer :: after)) = some (inner, after) := by
    rw [h.marks_append, hpassed, nil_append, (marks_bracket hpair _).2, enclosed?,
      nest?_closer (isCloser_of_closerOf? hcloser)]
    simp [extendInner, unmark_marks]
  simp [openedBlock?, hcloser, hfound]

/-! ## Segments

Inside brackets nothing cuts a text; outside of them the separators of the
grammar say what does. -/

theorem segmentsFrom_cons {separators : List Char} {depth : Nat} {role : Role}
    (hcut : isCut separators depth ⟨role, c⟩ = false) (afterEquals : Bool)
    (ms : List Marked) :
    segmentsFrom separators depth afterEquals (⟨role, c⟩ :: ms)
      = consSegment c (segmentsFrom separators (depthAfter depth afterEquals ⟨role, c⟩)
        (c == '=') ms) := by
  rw [segmentsFrom, hcut]
  rfl

/-- A character of a literal neither cuts nor nests. -/
theorem segmentsFrom_literals (separators : List Char) (depth : Nat) (cs : List Char)
    (last : Char) (afterEquals : Bool) (ms : List Marked) :
    segmentsFrom separators depth afterEquals
      ((cs ++ [last]).map (Marked.mk .literal) ++ ms)
      = (cs ++ [last]).foldr consSegment
        (segmentsFrom separators depth (last == '=') ms) := by
  have hstep : ∀ c afterEquals ms,
      segmentsFrom separators depth afterEquals (⟨.literal, c⟩ :: ms)
      = consSegment c (segmentsFrom separators depth (c == '=') ms) :=
    fun c afterEquals ms => segmentsFrom_cons (by simp [isCut]) afterEquals ms
  induction cs generalizing afterEquals with
  | nil => exact hstep last afterEquals ms
  | cons c cs ih =>
    simp only [cons_append, map_cons, foldr_cons]
    rw [hstep, ih]

theorem segmentsFrom_bracket (hpair : (opener, closer) ∈ bracketPairs)
    {separators text : List Char} {inner : List Marked} (depth : Nat)
    (ms : List Marked)
    (hinner : ∀ ms, segmentsFrom separators (depth + 1) false (inner ++ ms)
      = text.foldr consSegment (segmentsFrom separators (depth + 1) false ms)) :
    segmentsFrom separators depth false
      (⟨.code, opener⟩ :: (inner ++ ⟨.code, closer⟩ :: ms))
      = (opener :: text ++ [closer]).foldr consSegment
        (segmentsFrom separators depth false ms) := by
  have hbracket : ∀ o c, opensNesting o = true → (o == '=') = false →
      opensNesting c = false →
      closesNesting c = true → (c == '=') = false →
      segmentsFrom separators depth false (⟨.code, o⟩ :: (inner ++ ⟨.code, c⟩ :: ms))
        = (o :: text ++ [c]).foldr consSegment
          (segmentsFrom separators depth false ms) := by
    intro o c hopens hequals hopens' hcloses hequals'
    have hdown : depthAfter depth false ⟨.code, o⟩ = depth + 1 := by
      simp [depthAfter, hopens]
    have hup : depthAfter (depth + 1) false ⟨.code, c⟩ = depth := by
      simp [depthAfter, hopens', hcloses]
    rw [segmentsFrom_cons (by simp [isCut, hopens]), hdown, hequals, hinner,
      segmentsFrom_cons (by simp [isCut, hcloses]), hup, hequals']
    simp
  rcases mem_bracketPairs.1 hpair with ⟨rfl, rfl⟩ | ⟨rfl, rfl⟩ | ⟨rfl, rfl⟩
    | ⟨rfl, rfl⟩ <;>
    exact hbracket _ _ rfl rfl rfl rfl rfl

theorem Balanced.segmentsFrom_append {avoided cs : List Char}
    (h : Balanced avoided cs) {separators : List Char} {depth : Nat}
    (hcut : depth ≠ 0 ∨ ∀ c ∈ separators, c ∈ avoided) (ms : List Marked) :
    segmentsFrom separators depth false (marks cs ++ ms)
      = cs.foldr consSegment (segmentsFrom separators depth false ms) := by
  induction h generalizing depth ms with
  | nil => simp
  | @plain avoided c hplain hsep =>
    obtain ⟨hquote, hslash, hequals, hopens, hcloses⟩ := isPlain_iff.1 hplain
    have hnot : isCut separators depth ⟨.code, c⟩ = false := by
      rcases hcut with hdepth | hsub
      · simp [isCut, hdepth]
      · have hmem : c ∉ separators := fun hmem => hsep (hsub c hmem)
        simp [isCut, hmem]
    have hlevel : depthAfter depth false ⟨.code, c⟩ = depth := by
      simp [depthAfter, hopens, hcloses]
    have hflag : (c == '=') = false := by simpa using hequals
    rw [marks_cons hquote hslash, marks_nil]
    simpa [hlevel, hflag] using segmentsFrom_cons hnot false ms
  | @literal avoided body hbody =>
    have hnil := marks_singleQuoted hbody []
    rw [append_nil] at hnil
    rw [hnil, marks_nil, append_nil]
    exact segmentsFrom_literals separators depth ('\'' :: body) '\'' false ms
  | block hpair hinner ih =>
    rw [cons_append, (marks_bracket hpair _).1, hinner.marks_append,
      (marks_bracket hpair _).2, marks_nil]
    simpa using segmentsFrom_bracket hpair depth ms fun ms =>
      ih (.inl (Nat.succ_ne_zero depth)) ms
  | append hleft _ ihleft ihright =>
    rw [hleft.marks_append, append_assoc, ihleft hcut, ihright hcut, foldr_append]

theorem foldr_consSegment (cs segment : List Char) (segments : List (List Char)) :
    cs.foldr consSegment (segment :: segments) = (cs ++ segment) :: segments := by
  induction cs with
  | nil => rfl
  | cons c cs ih => rw [foldr_cons, ih]; rfl

namespace Balanced

variable {separators cs : List Char}

theorem segments_eq (h : Balanced separators cs) : segments separators cs = [cs] := by
  have happend : segmentsFrom separators 0 false (marks cs ++ []) = _ :=
    h.segmentsFrom_append (.inr fun c hc => hc) []
  rw [append_nil] at happend
  rw [segments, happend, segmentsFrom, foldr_consSegment, append_nil]

/-- A separator behind a balanced text cuts it off. -/
theorem segments_append_cons (h : Balanced separators cs) {sep : Char}
    (hsep : sep ∈ separators) (hplain : isPlain sep = true) (rest : List Char) :
    segments separators (cs ++ sep :: rest) = cs :: segments separators rest := by
  obtain ⟨hquote, hslash, hequals, hopens, hcloses⟩ := isPlain_iff.1 hplain
  have hcut : isCut separators 0 ⟨.code, sep⟩ = true := by
    simp [isCut, hsep, hopens, hcloses]
  have hflag : (sep == '=') = false := by simpa using hequals
  rw [segments, h.marks_append, h.segmentsFrom_append (.inr fun c hc => hc),
    marks_cons hquote hslash, segmentsFrom, hcut, hflag, if_pos rfl, foldr_consSegment,
    append_nil, segments]

/-- Texts that each end with a separator are cut apart again. -/
theorem segments_flatMap {α : Type} {f : α → List Char} {sep : Char}
    (hsep : sep ∈ separators) (hplain : isPlain sep = true) {xs : List α}
    (h : ∀ x ∈ xs, Balanced separators (f x)) (rest : List Char) :
    segments separators (xs.flatMap (fun x => f x ++ [sep]) ++ rest)
      = xs.map f ++ segments separators rest := by
  induction xs with
  | nil => rfl
  | cons x xs ih =>
    have hrest := ih fun y hy => h y (mem_cons_of_mem _ hy)
    rw [flatMap_cons, append_assoc, append_assoc, singleton_append,
      (h x mem_cons_self).segments_append_cons hsep hplain, hrest]
    rfl

end Balanced

end Source

end TypedContent

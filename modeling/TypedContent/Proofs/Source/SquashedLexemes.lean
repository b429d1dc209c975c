import TypedContent.Proofs.Source.Lexemes
import TypedContent.Proofs.Source.SquashedTexts

/-!
# What squashing keeps

The *tokens* of a text are its string literals and the characters of its
code that are not blank. Blanks and comments are gaps. Squashing keeps the
tokens, and of the gaps it keeps a single space for each one between two
tokens.

This is shown on lexemes, as the text that comes out has to be read again. A
literal that something follows is closed, and a slash is followed by a space
wherever it is not followed by what stood behind it before. So no two
lexemes that are brought together are read as anything else
(`Legible.condense`), and the lexemes of the squashed text are the stretches
between the gaps with single spaces (`lexemes_squash`).
-/

namespace TypedContent

namespace Source

open List Text

variable {ts : List Lexeme}

/-! ## Gaps in a list -/

section Gaps

variable {α : Type} {x space : α} {p : α → Bool} {xs ys : List α}

/-- What stands between consecutive elements that do not satisfy `p`. -/
def gapsBetween (p : α → Bool) (xs : List α) : List (List α) :=
  (xs.splitOnP (!p ·)).dropLast.tail

theorem splitOnP_cons_gap (hx : p x = true) (xs : List α) :
    (x :: xs).splitOnP (!p ·) = (xs.splitOnP (!p ·)).modifyHead (x :: ·) := by
  rw [splitOnP_cons_eq_if_modifyHead, if_neg (by simp [hx])]

theorem splitOnP_cons_solid (hx : p x = false) (xs : List α) :
    (x :: xs).splitOnP (!p ·) = [] :: xs.splitOnP (!p ·) := by
  rw [splitOnP_cons_eq_if_modifyHead, if_pos (by simp [hx])]

theorem dropLast_modifyHead (f : α → α) (xs : List α) :
    (xs.modifyHead f).dropLast = xs.dropLast.modifyHead f := by
  match xs with
  | [] => rfl
  | [x] => rfl
  | x :: y :: xs => rfl

theorem gapsBetween_append_left (h : ∀ x ∈ xs, p x = true) (ys : List α) :
    gapsBetween p (xs ++ ys) = gapsBetween p ys := by
  induction xs with
  | nil => rfl
  | cons x xs ih =>
    rw [forall_mem_cons] at h
    rw [gapsBetween, cons_append, splitOnP_cons_gap h.1, dropLast_modifyHead,
      tail_modifyHead]
    exact ih h.2

theorem dropLast_splitOnP_append (h : ∀ y ∈ ys, p y = true) (xs : List α) :
    ((xs ++ ys).splitOnP (!p ·)).dropLast = (xs.splitOnP (!p ·)).dropLast := by
  induction xs with
  | nil => rw [nil_append, splitOnP_eq_singleton (by simpa using h), splitOnP_nil]; rfl
  | cons x xs ih =>
    cases hx : p x with
    | true =>
      rw [cons_append, splitOnP_cons_gap hx, splitOnP_cons_gap hx, dropLast_modifyHead,
        dropLast_modifyHead, ih]
    | false =>
      rw [cons_append, splitOnP_cons_solid hx, splitOnP_cons_solid hx,
        dropLast_cons_of_ne_nil (splitOnP_ne_nil _ _),
        dropLast_cons_of_ne_nil (splitOnP_ne_nil _ _), ih]

theorem gapsBetween_append_right (h : ∀ y ∈ ys, p y = true) (xs : List α) :
    gapsBetween p (xs ++ ys) = gapsBetween p xs := by
  rw [gapsBetween, dropLast_splitOnP_append h, gapsBetween]

/-- A gap with a single element in its place. -/
def condensedGap (space : α) : List α → List α
  | [] => []
  | _ :: _ => [space]

/-- The first gap is empty if the list does not start with one. -/
theorem exists_splitOnP_cons (p : α → Bool) (space : α) (xs : List α) :
    ∃ gap gaps, xs.splitOnP (!p ·) = gap :: gaps
      ∧ condensedGap space gap = if xs.head?.any p then [space] else [] := by
  cases xs with
  | nil => exact ⟨[], [], splitOnP_nil, rfl⟩
  | cons x xs =>
    cases hx : p x with
    | false => exact ⟨[], _, splitOnP_cons_solid hx xs, by simp [condensedGap, hx]⟩
    | true =>
      obtain ⟨gap, gaps, hsplit⟩ := exists_cons_of_ne_nil (splitOnP_ne_nil (!p ·) xs)
      exact ⟨x :: gap, gaps, by
        rw [splitOnP_cons_gap hx, hsplit]; rfl, by simp [condensedGap, hx]⟩

/-- Condensing a list condenses each of its gaps. -/
theorem splitOnP_condense (hspace : p space = true) (xs : List α) :
    (condense p space xs).splitOnP (!p ·)
      = (xs.splitOnP (!p ·)).map (condensedGap space) := by
  induction xs with
  | nil => simp [condense, splitOnP_nil, condensedGap]
  | cons x xs ih =>
    cases hx : p x with
    | false =>
      rw [condense_cons hx, splitOnP_cons_solid hx, splitOnP_cons_solid hx, ih]; rfl
    | true =>
      obtain ⟨gap, gaps, hsplit, hgap⟩ := exists_splitOnP_cons p space xs
      rw [hsplit] at ih
      rw [condense, if_pos hx, splitOnP_cons_gap hx, hsplit]
      split
      · rename_i hhead
        rw [if_pos hhead] at hgap
        rw [ih, map_cons, hgap]
        rfl
      · rename_i hhead
        rw [if_neg hhead] at hgap
        rw [splitOnP_cons_gap hspace, ih, map_cons, hgap]
        rfl

theorem gapsBetween_condense (hspace : p space = true) (xs : List α) :
    gapsBetween p (condense p space xs)
      = (gapsBetween p xs).map (condensedGap space) := by
  rw [gapsBetween, splitOnP_condense hspace, gapsBetween, map_tail, map_dropLast]

theorem filter_condense (hspace : p space = true) (xs : List α) :
    (condense p space xs).filter (!p ·) = xs.filter (!p ·) := by
  induction xs with
  | nil => rfl
  | cons x xs ih =>
    cases hx : p x with
    | false => rw [condense_cons hx, filter_cons, filter_cons, ih]
    | true =>
      rw [condense, if_pos hx, filter_cons, hx]
      split
      · exact ih
      · rw [filter_cons, hspace]
        exact ih

theorem head?_intercalate {parts : List (List α)}
    (h : ∀ part ∈ parts, part ≠ [] ∧ ∀ x ∈ part, p x = false) :
    ∀ x ∈ ([space].intercalate parts).head?, p x = false := by
  intro x hx
  cases parts with
  | nil => cases hx
  | cons part parts =>
    obtain ⟨⟨hne, hpart⟩, -⟩ := forall_mem_cons.1 h
    obtain ⟨y, ys, rfl⟩ := exists_cons_of_ne_nil hne
    have hhead : ([space].intercalate ((y :: ys) :: parts)).head? = some y := by
      cases parts with
      | nil => rw [intercalate_singleton]; rfl
      | cons next parts => rw [intercalate_cons_cons]; rfl
    rw [hhead] at hx
    obtain rfl := Option.some.inj hx
    exact hpart y mem_cons_self

theorem getLast?_intercalate {parts : List (List α)}
    (h : ∀ part ∈ parts, part ≠ [] ∧ ∀ x ∈ part, p x = false) :
    ∀ x ∈ ([space].intercalate parts).getLast?, p x = false := by
  induction parts with
  | nil => exact fun x hx => nomatch hx
  | cons part parts ih =>
    obtain ⟨⟨hne, hpart⟩, hparts⟩ := forall_mem_cons.1 h
    cases parts with
    | nil =>
      rw [intercalate_singleton]
      exact fun x hx => hpart x (mem_of_mem_getLast? hx)
    | cons next parts =>
      have hrest : [space].intercalate (next :: parts) ≠ [] := by
        obtain ⟨⟨hnext, -⟩, -⟩ := forall_mem_cons.1 hparts
        cases parts with
        | nil => rwa [intercalate_singleton]
        | cons other parts =>
          rw [intercalate_cons_cons, append_assoc]
          exact append_ne_nil_of_left_ne_nil hnext _
      rw [intercalate_cons_cons, getLast?_append_of_ne_nil _ hrest]
      exact ih hparts

/-- A condensed list is its stretches with `space` between neighbours, up to
gaps at its ends. -/
theorem exists_condense_append (hspace : p space = true) (xs : List α) :
    ∃ front back, (∀ x ∈ front, p x = true) ∧ (∀ x ∈ back, p x = true)
      ∧ condense p space xs
        = front ++ ([space].intercalate (stretches p xs) ++ back) := by
  obtain ⟨back, hback, hcondense⟩ := exists_condense_eq p space xs
  refine ⟨_, back, ?_, ?_, hcondense⟩
  · split <;> simp [hspace]
  · rcases hback with rfl | ⟨rfl, -⟩ <;> simp [hspace]

theorem filter_intercalate_stretches (hspace : p space = true) (xs : List α) :
    ([space].intercalate (stretches p xs)).filter (!p ·) = xs.filter (!p ·) := by
  obtain ⟨front, back, hfront, hback, hcondense⟩ := exists_condense_append hspace xs
  have hnone : ∀ {gap : List α}, (∀ x ∈ gap, p x = true) →
      gap.filter (!p ·) = [] := fun h =>
    filter_eq_nil_iff.2 (by simpa using h)
  rw [← filter_condense hspace xs, hcondense, filter_append, filter_append,
    hnone hfront, hnone hback, nil_append, append_nil]

theorem gapsBetween_intercalate_stretches (hspace : p space = true) (xs : List α) :
    gapsBetween p ([space].intercalate (stretches p xs))
      = (gapsBetween p xs).map (condensedGap space) := by
  obtain ⟨front, back, hfront, hback, hcondense⟩ := exists_condense_append hspace xs
  rw [← gapsBetween_condense hspace xs, hcondense, gapsBetween_append_left hfront,
    gapsBetween_append_right hback]

theorem mem_intercalate_stretches (hspace : p space = true)
    (h : x ∈ [space].intercalate (stretches p xs)) :
    x = space ∨ p x = false := by
  obtain ⟨front, back, -, -, hcondense⟩ := exists_condense_append hspace xs
  have hmem : x ∈ condense p space xs := by
    rw [hcondense]
    exact mem_append_right _ (mem_append_left _ h)
  exact (mem_condense hmem).imp_right And.right

theorem stretches_append_gap (h : ∀ x ∈ xs, p x = true) (ys : List α) :
    stretches p (xs ++ ys) = stretches p ys := by
  induction xs with
  | nil => rfl
  | cons x xs ih =>
    rw [forall_mem_cons] at h
    rw [cons_append, stretches_cons_gap h.1, ih h.2]

/-- A stretch in front of a list is one of its own if a gap follows, and
part of the first one otherwise. -/
theorem stretches_append (hne : xs ≠ []) (h : ∀ x ∈ xs, p x = false) (ys : List α) :
    (ys.head?.all p = true → stretches p (xs ++ ys) = xs :: stretches p ys)
      ∧ (ys.head?.all p = false → ∃ stretch rest, stretches p ys = stretch :: rest
        ∧ stretches p (xs ++ ys) = (xs ++ stretch) :: rest) := by
  induction xs with
  | nil => exact absurd rfl hne
  | cons x xs ih =>
    rw [forall_mem_cons] at h
    cases xs with
    | nil =>
      refine ⟨stretches_cons_last h.1, fun hhead => ?_⟩
      obtain ⟨y, ys, rfl⟩ : ∃ y zs, ys = y :: zs :=
        exists_cons_of_ne_nil (by rintro rfl; cases hhead)
      exact exists_stretches_cons h.1 hhead ys
    | cons y xs =>
      obtain ⟨hlast, hcons⟩ := ih (cons_ne_nil y xs) h.2
      have hy : p y = false := h.2 y mem_cons_self
      obtain ⟨stretch, rest, hstretches, hx⟩ := exists_stretches_cons h.1 hy (xs ++ ys)
      constructor
      · intro hhead
        have hsame := hlast hhead
        rw [cons_append, hstretches] at hsame
        obtain ⟨rfl, rfl⟩ := List.cons.inj hsame
        exact hx
      · intro hhead
        obtain ⟨first, others, hys, hsame⟩ := hcons hhead
        rw [cons_append, hstretches] at hsame
        obtain ⟨rfl, rfl⟩ := List.cons.inj hsame
        exact ⟨first, _, hys, hx⟩

end Gaps

/-! ## Tokens -/

/-- A blank of the code or a comment. -/
def Lexeme.isGap : Lexeme → Bool
  | code c => isBlank c
  | literal _ => false
  | comment _ => true

/-- The string literals and the characters of the code that are not
blank. -/
def tokens (ts : List Lexeme) : List Lexeme :=
  ts.filter (!·.isGap)

theorem isGap_space : (Lexeme.code ' ').isGap = true := rfl

theorem Lexeme.isGap_of_mem_marks {t : Lexeme} {m : Marked} (h : m ∈ t.marks) :
    m.isGap = t.isGap := by
  obtain ⟨c, hc, rfl⟩ := mem_map.1 h
  cases t with
  | literal text => rfl
  | comment text => rfl
  | code d =>
    obtain rfl := mem_singleton.1 hc
    rfl

theorem Lexeme.isGap_of_role {t : Lexeme} (h : t.role = .comment) : t.isGap = true := by
  cases t with
  | comment text => rfl
  | _ => cases h

theorem head?_all_marksOf (hne : ∀ t ∈ ts, t.text ≠ []) :
    (marksOf ts).head?.all Marked.isGap = ts.head?.all Lexeme.isGap := by
  cases ts with
  | nil => rfl
  | cons t ts =>
    obtain ⟨c, cs, hcs⟩ := exists_cons_of_ne_nil (hne t mem_cons_self)
    have hmarks : t.marks = ⟨t.role, c⟩ :: cs.map (Marked.mk t.role) := by
      rw [Lexeme.marks, hcs]; rfl
    have hmem : (⟨t.role, c⟩ : Marked) ∈ t.marks := hmarks ▸ mem_cons_self
    rw [marksOf_cons, hmarks]
    exact Lexeme.isGap_of_mem_marks hmem

/-- The runs of a text are the stretches of its lexemes between the gaps. -/
theorem stretches_marksOf (hne : ∀ t ∈ ts, t.text ≠ []) :
    stretches Marked.isGap (marksOf ts) = (stretches Lexeme.isGap ts).map marksOf := by
  induction ts with
  | nil => rw [marksOf_nil, stretches_nil, stretches_nil]; rfl
  | cons t ts ih =>
    rw [forall_mem_cons] at hne
    have hrest := ih hne.2
    cases ht : t.isGap with
    | true =>
      have hgaps : ∀ m ∈ t.marks, m.isGap = true :=
        fun m hm => (Lexeme.isGap_of_mem_marks hm).trans ht
      rw [stretches_cons_gap ht, marksOf_cons, stretches_append_gap hgaps, hrest]
    | false =>
      have hsolid : ∀ m ∈ t.marks, m.isGap = false :=
        fun m hm => (Lexeme.isGap_of_mem_marks hm).trans ht
      have hmarks : t.marks ≠ [] := fun hnil => hne.1 (map_eq_nil_iff.1 hnil)
      obtain ⟨hlast, hcons⟩ := stretches_append hmarks hsolid (marksOf ts)
      rw [head?_all_marksOf hne.2] at hlast hcons
      rw [marksOf_cons]
      cases hhead : ts.head?.all Lexeme.isGap with
      | true =>
        rw [hlast hhead, stretches_cons_last ht hhead, hrest, map_cons]
        simp
      | false =>
        obtain ⟨u, us, rfl⟩ : ∃ u us, ts = u :: us :=
          exists_cons_of_ne_nil (by rintro rfl; cases hhead)
        obtain ⟨stretch, rest, hstretches, hjoined⟩ := hcons hhead
        obtain ⟨stretch', rest', hstretches', hjoined'⟩ :=
          exists_stretches_cons ht hhead us
        rw [hstretches, hstretches', map_cons] at hrest
        obtain ⟨rfl, rfl⟩ := List.cons.inj hrest
        rw [hjoined, hjoined']
        rfl

theorem textOf_intercalate (parts : List (List Lexeme)) :
    textOf ([.code ' '].intercalate parts) = [' '].intercalate (parts.map textOf) := by
  induction parts with
  | nil => rfl
  | cons part parts ih =>
    cases parts with
    | nil => simp [intercalate_singleton]
    | cons next parts =>
      rw [intercalate_cons_cons, textOf_append, textOf_append, ih]
      simp [intercalate_cons_cons, Lexeme.text]

/-! ## Reading a squashed text -/

theorem head?_textOf (hne : ∀ t ∈ ts, t.text ≠ []) :
    (textOf ts).head? = ts.head?.bind fun t => t.text.head? := by
  cases ts with
  | nil => rfl
  | cons t ts =>
    obtain ⟨c, cs, hcs⟩ := exists_cons_of_ne_nil (hne t mem_cons_self)
    simp [hcs]

/-- Lexemes stay what they are when every gap becomes a single space. -/
theorem Legible.condense (h : Legible ts) :
    Legible (Source.condense Lexeme.isGap (.code ' ') ts) := by
  induction ts with
  | nil => trivial
  | cons t ts ih =>
    have hspace (rest : List Char) : (Lexeme.code ' ').Precedes rest :=
      precedes_code_iff.2 ⟨rfl, nofun⟩
    cases ht : t.isGap with
    | true =>
      rw [Source.condense, if_pos ht]
      split
      · exact ih h.2
      · exact ⟨hspace _, ih h.2⟩
    | false =>
      rw [condense_cons ht]
      refine ⟨h.1.congr (fun hnil => ?_) ?_, ih h.2⟩
      · cases ts with
        | nil => rfl
        | cons u us =>
          exact absurd (append_eq_nil_iff.1 hnil).1 (h.2.text_ne_nil u mem_cons_self)
      · rw [head?_textOf (ih h.2).text_ne_nil, head?_textOf h.2.text_ne_nil,
          head?_condense]
        split
        · exact .inr (.inl rfl)
        · exact .inl rfl

/-- The lexemes of a squashed text are those between the gaps of the text,
with single spaces for the gaps. -/
theorem lexemes_squash (cs : List Char) :
    lexemes (squash cs) = [.code ' '].intercalate
      (stretches Lexeme.isGap (lexemes cs)) := by
  have hlegible := legible_lexemes cs
  have htext :
      squash cs = textOf ([.code ' '].intercalate
        (stretches Lexeme.isGap (lexemes cs))) := by
    have hruns : runs cs = stretches Marked.isGap (marksOf (lexemes cs)) := by
      rw [← marks_eq_lexemes]; rfl
    have hunmark : unmark ∘ marksOf = textOf := funext unmark_marksOf
    rw [squash, hruns, stretches_marksOf hlegible.text_ne_nil, map_map, hunmark,
      textOf_intercalate]
  obtain ⟨front, back, -, -, hcondense⟩ := exists_condense_append isGap_space (lexemes cs)
  have hcondensed := hlegible.condense
  rw [hcondense] at hcondensed
  rw [htext, lexemes_textOf hcondensed.of_append_right.of_append_left]

/-! ## What squashing keeps -/

/-- The text `out` has the tokens of `cs`, with exactly one space between
two of them where a blank or a comment separates them in `cs`, and nothing
else. -/
structure IsSquashed (cs out : List Char) : Prop where
  tokens : tokens (lexemes out) = tokens (lexemes cs)
  separated : gapsBetween Lexeme.isGap (lexemes out)
    = (gapsBetween Lexeme.isGap (lexemes cs)).map (condensedGap (.code ' '))
  commentless : ∀ t ∈ lexemes out, t.role ≠ .comment
  starts : ∀ t ∈ (lexemes out).head?, t.isGap = false
  ends : ∀ t ∈ (lexemes out).getLast?, t.isGap = false

/-- **Squashing normalises a text without changing its tokens**, and a
squashed text is not changed any further. -/
theorem squash_keeps_tokens (cs : List Char) :
    IsSquashed cs (squash cs) ∧ squash (squash cs) = squash cs := by
  have hstretches : ∀ stretch ∈ stretches Lexeme.isGap (lexemes cs),
      stretch ≠ [] ∧ ∀ t ∈ stretch, t.isGap = false :=
    fun _ => mem_stretches
  refine ⟨⟨?_, ?_, ?_, ?_, ?_⟩, squash_squash cs⟩ <;> rw [lexemes_squash]
  · exact filter_intercalate_stretches isGap_space (lexemes cs)
  · exact gapsBetween_intercalate_stretches isGap_space (lexemes cs)
  · intro t ht
    rcases mem_intercalate_stretches isGap_space ht with rfl | hgap
    · decide
    · intro hrole
      rw [Lexeme.isGap_of_role hrole] at hgap
      cases hgap
  · exact head?_intercalate hstretches
  · exact getLast?_intercalate hstretches

end Source

end TypedContent

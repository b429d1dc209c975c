import Mathlib.Data.List.Chain
import Mathlib.Data.List.TakeWhile
import TypedContent.Proofs.Source.Entries

/-!
# Single spacing

Two texts differ in layout only when they agree once every run of blanks and
comments between two tokens is a single space. The *single-spaced* form of a
text is that common form. It is taken on the marked text, where literals and
comments are told apart, and marking the result gives back what it was taken
from (`marks_singleSpaced`): dropping a comment never makes a token of what
stood around it.

Blank runs of a plain text are condensed in the same way, so the operation
is stated once, for lists (`condense`).
-/

namespace TypedContent

namespace Source

open List Text

variable {c : Char}

/-! ## Condensed lists -/

section Condense

variable {α β : Type} {p : α → Bool} {space : α} {x : α} {xs ys : List α}

/-- Put `space` in the place of every maximal run of elements that satisfy
`p`. -/
def condense (p : α → Bool) (space : α) : List α → List α
  | [] => []
  | x :: xs =>
    if p x then
      if xs.head?.any p then condense p space xs else space :: condense p space xs
    else x :: condense p space xs

theorem condense_cons (h : p x = false) (xs : List α) :
    condense p space (x :: xs) = x :: condense p space xs := by
  rw [condense, if_neg (by simp [h])]

theorem condense_solid_append (h : ∀ x ∈ xs, p x = false) (ys : List α) :
    condense p space (xs ++ ys) = xs ++ condense p space ys := by
  induction xs with
  | nil => rfl
  | cons x xs ih =>
    rw [forall_mem_cons] at h
    rw [cons_append, condense_cons h.1, ih h.2]
    rfl

theorem condense_of_forall (h : ∀ x ∈ xs, p x = false) : condense p space xs = xs := by
  have happend := @condense_solid_append α p space xs h []
  rwa [append_nil, condense, append_nil] at happend

/-- An element outside of every run stays where it is. -/
theorem condense_append (h : p x = false) (xs ys : List α) :
    condense p space (xs ++ x :: ys)
      = condense p space xs ++ x :: condense p space ys := by
  induction xs with
  | nil => exact condense_cons h ys
  | cons y xs ih =>
    have hhead : (xs ++ x :: ys).head?.any p = xs.head?.any p := by
      cases xs with
      | nil => simp [h]
      | cons z zs => rfl
    rw [cons_append, condense, condense, hhead, ih]
    split
    · split <;> rfl
    · rfl

/-- What a run at the front of a list becomes does not depend on the run. -/
theorem condense_run (hne : xs ≠ []) (h : ∀ x ∈ xs, p x = true) (ys : List α) :
    condense p space (xs ++ ys) = if ys.head?.any p then condense p space ys
      else space :: condense p space ys := by
  induction xs with
  | nil => exact absurd rfl hne
  | cons x xs ih =>
    rw [forall_mem_cons] at h
    rw [cons_append, condense, if_pos h.1]
    cases xs with
    | nil => rfl
    | cons y zs =>
      have hhead : ((y :: zs) ++ ys).head?.any p = true := h.2 y mem_cons_self
      rw [if_pos hhead]
      exact ih (cons_ne_nil y zs) h.2

/-- Runs may be exchanged for one another. -/
theorem condense_run_congr {run run' : List α} (hrun : run ≠ []) (hrun' : run' ≠ [])
    (h : ∀ x ∈ run, p x = true) (h' : ∀ x ∈ run', p x = true) (xs ys : List α) :
    condense p space (xs ++ (run ++ ys)) = condense p space (xs ++ (run' ++ ys)) := by
  induction xs with
  | nil =>
    rw [nil_append, nil_append, condense_run hrun h, condense_run hrun' h']
  | cons x xs ih =>
    have hhead : (xs ++ (run ++ ys)).head?.any p = (xs ++ (run' ++ ys)).head?.any p := by
      cases xs with
      | nil =>
        obtain ⟨y, zs, rfl⟩ := exists_cons_of_ne_nil hrun
        obtain ⟨y', zs', rfl⟩ := exists_cons_of_ne_nil hrun'
        have hy := h y mem_cons_self
        have hy' := h' y' mem_cons_self
        simp [hy, hy']
      | cons y zs => rfl
    rw [cons_append, cons_append, condense, condense, hhead, ih]

theorem dropWhile_condense (hspace : p space = true) (xs : List α) :
    (condense p space xs).dropWhile p = condense p space (xs.dropWhile p) := by
  induction xs with
  | nil => rfl
  | cons x xs ih =>
    cases hx : p x with
    | false =>
      have hnot : ¬ p x = true := by simp [hx]
      rw [condense_cons hx, dropWhile_cons_of_neg hnot, dropWhile_cons_of_neg hnot,
        condense_cons hx]
    | true =>
      rw [dropWhile_cons_of_pos hx, ← ih, condense, if_pos hx]
      split
      · rfl
      · exact dropWhile_cons_of_pos hspace

theorem condense_map {q : β → Bool} {f : α → β} (h : ∀ x, q (f x) = p x) (xs : List α) :
    condense q (f space) (xs.map f) = (condense p space xs).map f := by
  induction xs with
  | nil => rfl
  | cons x xs ih =>
    have hhead : (xs.map f).head?.any q = xs.head?.any p := by
      cases xs with
      | nil => rfl
      | cons y ys => exact h y
    rw [map_cons, condense, condense, h, hhead, ih]
    split
    · split <;> rfl
    · rfl

theorem mem_condense (h : x ∈ condense p space xs) :
    x = space ∨ x ∈ xs ∧ p x = false := by
  induction xs with
  | nil => cases h
  | cons y xs ih =>
    have hcons : x ∈ condense p space xs → x = space ∨ x ∈ y :: xs ∧ p x = false :=
      fun h => (ih h).imp_right (And.imp_left (mem_cons_of_mem y))
    rw [condense] at h
    split at h
    · split at h
      · exact hcons h
      · rcases mem_cons.1 h with rfl | h
        · exact .inl rfl
        · exact hcons h
    · rename_i hy
      rcases mem_cons.1 h with rfl | h
      · exact .inr ⟨mem_cons_self, by simpa using hy⟩
      · exact hcons h

/-- Either the list starts with a run, or its head stays. -/
theorem head?_condense (p : α → Bool) (space : α) (xs : List α) :
    (condense p space xs).head? = if xs.head?.any p then some space else xs.head? := by
  induction xs with
  | nil => rfl
  | cons x xs ih =>
    rw [condense]
    cases hx : p x with
    | false => simp [hx]
    | true =>
      simp only [head?_cons, Option.any_some, hx, if_true]
      split
      · rename_i hhead
        rw [ih, if_pos hhead]
      · rfl

end Condense

/-! ## Single-spaced text -/

/-- The text with a single space for every run of blanks. -/
def condensed (cs : List Char) : List Char :=
  condense isBlank ' ' cs

/-- The marked text with a single space for every run of gaps. -/
def spaced (ms : List Marked) : List Marked :=
  condense Marked.isGap ⟨.code, ' '⟩ ms

/-- The text with a single space for every run of blanks and comments. -/
def singleSpaced (cs : List Char) : List Char :=
  unmark (spaced (marks cs))

theorem unmark_append (xs ys : List Marked) :
    unmark (xs ++ ys) = unmark xs ++ unmark ys :=
  map_append

namespace Scan

variable {s : Scan}

/-- Where the scan is when what it reads inside of a comment has been
dropped. -/
def outside : Scan → Scan
  | between .lineComment => between .code
  | between .blockComment => between .code
  | inside (.literal q) => inside (.literal q)
  | inside _ => between .code
  | s => s

/-- A gap is read, and left, outside of every literal. -/
theorem outside_of_isGap {next : Option Char}
    (h : Marked.isGap ⟨(s.step c next).1, c⟩ = true) :
    s.outside = between .code ∧ (s.step c next).2.outside = between .code := by
  rcases s with mode | mode
  · cases mode with
    | code =>
      refine ⟨rfl, ?_⟩
      simp only [step] at h ⊢
      split
      · rfl
      · rename_i hline
        split
        · rfl
        · rename_i hblock
          rw [if_neg hline, if_neg hblock] at h
          split
          · rename_i hquote
            rw [if_pos hquote] at h
            cases h
          · rfl
    | literal q =>
      rw [step_literal_fst] at h
      cases h
    | lineComment =>
      refine ⟨rfl, ?_⟩
      simp only [step]
      split <;> rfl
    | blockComment =>
      refine ⟨rfl, ?_⟩
      simp only [step]
      split <;> rfl
  · cases mode with
    | code => exact ⟨rfl, rfl⟩
    | literal q => cases h
    | lineComment => exact ⟨rfl, rfl⟩
    | blockComment => exact ⟨rfl, rfl⟩

/-- Any other character is read outside of every comment, and leaves the
scan there. -/
theorem outside_of_not_isGap {next : Option Char}
    (h : Marked.isGap ⟨(s.step c next).1, c⟩ = false) :
    s.outside = s ∧ (s.step c next).2.outside = (s.step c next).2 := by
  rcases s with mode | mode
  · cases mode with
    | code =>
      refine ⟨rfl, ?_⟩
      simp only [step] at h ⊢
      split at h
      · cases h
      · rename_i hline
        split at h
        · cases h
        · rename_i hblock
          rw [if_neg hline, if_neg hblock]
          split <;> rfl
    | literal q =>
      refine ⟨rfl, ?_⟩
      simp only [step]
      split
      · rfl
      · simp only
        split <;> rfl
    | lineComment => cases h
    | blockComment => simp [Marked.isGap] at h
  · cases mode with
    | literal q => exact ⟨rfl, rfl⟩
    | code => cases h
    | lineComment => cases h
    | blockComment => cases h

/-- It is read in the same way when a blank stands in the place of what
follows it. -/
theorem step_space {d : Char} (h : Marked.isGap ⟨(s.step c (some d)).1, c⟩ = false) :
    s.step c (some ' ') = s.step c (some d) := by
  rcases s with mode | mode
  · cases mode with
    | code =>
      simp only [step] at h ⊢
      split at h
      · cases h
      · rename_i hline
        split at h
        · cases h
        · rename_i hblock
          rw [if_neg hline, if_neg hblock]
          simp
    | literal q => rfl
    | lineComment => rfl
    | blockComment => simp [Marked.isGap] at h
  · cases mode <;> rfl

theorem run_spaced (s : Scan) (cs : List Char) :
    s.outside.run (unmark (spaced (s.run cs))) = spaced (s.run cs) := by
  induction cs generalizing s with
  | nil => rfl
  | cons c cs ih =>
    have hrest := ih (s.step c cs.head?).2
    cases hgap : Marked.isGap ⟨(s.step c cs.head?).1, c⟩ with
    | true =>
      obtain ⟨hs, hnext⟩ := outside_of_isGap hgap
      rw [hnext] at hrest
      rw [hs, run_cons, spaced, condense, if_pos hgap]
      split
      · exact hrest
      · exact congrArg (List.cons _) hrest
    | false =>
      obtain ⟨hs, hnext⟩ := outside_of_not_isGap hgap
      have hstep : s.step c (unmark (spaced ((s.step c cs.head?).2.run cs))).head?
          = s.step c cs.head? := by
        rw [unmark, head?_map, spaced, head?_condense]
        cases cs with
        | nil => rfl
        | cons d cs =>
          split
          · exact step_space hgap
          · rfl
      rw [hnext] at hrest
      have hcons : spaced (s.run (c :: cs))
          = ⟨(s.step c cs.head?).1, c⟩ :: spaced ((s.step c cs.head?).2.run cs) :=
        condense_cons hgap _
      rw [hs, hcons, unmark, map_cons, run_cons]
      rw [unmark] at hstep hrest
      rw [hstep, hrest]

theorem unmark_run (s : Scan) (cs : List Char) : unmark (s.run cs) = cs := by
  induction cs generalizing s with
  | nil => rfl
  | cons c cs ih => exact congrArg (List.cons c) (ih _)

/-- Behind the gap at the front of a text the scan is where a text
starts. -/
theorem run_dropGap (hs : s.outside = between .code) (cs : List Char) :
    (between .code).run (unmark ((s.run cs).dropWhile Marked.isGap))
      = (s.run cs).dropWhile Marked.isGap := by
  induction cs generalizing s with
  | nil => rfl
  | cons c cs ih =>
    cases hgap : Marked.isGap ⟨(s.step c cs.head?).1, c⟩ with
    | true =>
      rw [run_cons, dropWhile_cons_of_pos hgap]
      exact ih (outside_of_isGap hgap).2
    | false =>
      obtain rfl : s = between .code := (outside_of_not_isGap hgap).1.symm.trans hs
      rw [run_cons, dropWhile_cons_of_neg (by simp [hgap]), ← run_cons, unmark_run]

end Scan

/-- Single spacing does not change what the remaining characters are part
of. -/
theorem marks_singleSpaced (cs : List Char) :
    marks (singleSpaced cs) = spaced (marks cs) := by
  simp only [singleSpaced, marks, mark_eq_scan]
  exact Scan.run_spaced (.between .code) cs

/-- A stretch of a marked text that is marked in the same way on its own. -/
def Lexed (ms : List Marked) : Prop :=
  marks (unmark ms) = ms

theorem lexed_marks (cs : List Char) : Lexed (marks cs) :=
  congrArg marks (unmark_marks cs)

/-- What stands on either side of a character of the code. -/
theorem Lexed.split {xs ys : List Marked} (hc : c ≠ '/')
    (h : Lexed (xs ++ ⟨.code, c⟩ :: ys)) :
    Lexed xs ∧ Lexed ys := by
  obtain ⟨left, right, -, rfl, rfl, -⟩ := marks_split hc h
  exact ⟨lexed_marks left, lexed_marks right⟩

theorem Lexed.singleSpaced_unmark {ms : List Marked} (h : Lexed ms) :
    singleSpaced (unmark ms) = unmark (spaced ms) := by
  rw [singleSpaced, h]

theorem marks_dropGap (cs : List Char) :
    marks (dropGap cs) = (marks cs).dropWhile Marked.isGap := by
  simp only [dropGap, marks, mark_eq_scan]
  exact Scan.run_dropGap rfl cs

theorem dropGap_singleSpaced (cs : List Char) :
    dropGap (singleSpaced cs) = singleSpaced (dropGap cs) := by
  rw [dropGap, marks_singleSpaced, spaced, dropWhile_condense rfl, singleSpaced,
    marks_dropGap, spaced]

theorem singleSpaced_cons (hquote : isQuote c = false) (hslash : c ≠ '/')
    (hblank : isBlank c = false) (cs : List Char) :
    singleSpaced (c :: cs) = c :: singleSpaced cs := by
  have hgap : Marked.isGap ⟨.code, c⟩ = false := by simp [Marked.isGap, hblank]
  rw [singleSpaced, marks_cons hquote hslash, spaced, condense_cons hgap]
  rfl

theorem head?_singleSpaced (cs : List Char) :
    (singleSpaced cs).head? = if (marks cs).head?.any Marked.isGap then some ' '
      else cs.head? := by
  rw [singleSpaced, unmark, head?_map, spaced, head?_condense]
  split
  · rfl
  · rw [← head?_map, ← unmark, unmark_marks]

/-- A text without a blank or a comment between its tokens. -/
def IsGapless (cs : List Char) : Prop :=
  ∀ m ∈ marks cs, m.isGap = false

instance (cs : List Char) : Decidable (IsGapless cs) :=
  inferInstanceAs (Decidable (∀ m ∈ marks cs, m.isGap = false))

theorem IsGapless.singleSpaced_eq {cs : List Char} (h : IsGapless cs) :
    singleSpaced cs = cs := by
  rw [singleSpaced, spaced, condense_of_forall h, unmark_marks]

/-- A text without comments. -/
def IsCommentless (cs : List Char) : Prop :=
  ∀ m ∈ marks cs, m.role ≠ .comment

instance (cs : List Char) : Decidable (IsCommentless cs) :=
  inferInstanceAs (Decidable (∀ m ∈ marks cs, m.role ≠ .comment))

theorem isCommentless_singleSpaced (cs : List Char) :
    IsCommentless (singleSpaced cs) := by
  intro m hm hrole
  rw [marks_singleSpaced] at hm
  rcases mem_condense hm with rfl | ⟨-, hgap⟩
  · cases hrole
  · simp [Marked.isGap, hrole] at hgap

theorem IsCommentless.dropGap_eq {cs : List Char} (h : IsCommentless cs) :
    dropGap cs = trimStart cs := by
  induction cs with
  | nil => rfl
  | cons c cs ih =>
    cases hblank : isBlank c with
    | true =>
      obtain ⟨hquote, hslash⟩ := isQuote_of_isBlank hblank
      have hmarks := marks_cons hquote hslash cs
      have hrest : IsCommentless cs := fun m hm => h m (hmarks ▸ mem_cons_of_mem _ hm)
      rw [← dropGap_trimStart, trimStart, dropWhile_cons_of_pos hblank]
      exact (dropGap_trimStart cs).trans (ih hrest)
    | false =>
      have hchars := unmark_marks (c :: cs)
      rw [trimStart_cons hblank, dropGap]
      cases hmarks : marks (c :: cs) with
      | nil =>
        rw [hmarks] at hchars
        cases hchars
      | cons m ms =>
        rw [hmarks] at hchars
        obtain ⟨hchar, -⟩ := List.cons.inj hchars
        have hrole : m.role ≠ .comment := h m (hmarks ▸ mem_cons_self)
        have hgap : m.isGap = false := by simp [Marked.isGap, hrole, hchar, hblank]
        rw [dropWhile_cons_of_neg (by simp [hgap]), hchars]

theorem trimStart_singleSpaced (cs : List Char) :
    trimStart (singleSpaced cs) = singleSpaced (dropGap cs) := by
  rw [← (isCommentless_singleSpaced cs).dropGap_eq, dropGap_singleSpaced]

end Source

end TypedContent

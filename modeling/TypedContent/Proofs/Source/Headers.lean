import Mathlib.Data.List.Basic
import Mathlib.Data.List.TakeDrop
import Mathlib.Data.List.TakeWhile
import TypedContent.Source.Pattern

/-!
# Where header patterns match

The search for headers goes through a text place by place. It is followed
here in two kinds of steps: over a header, which it finds and leaves behind
(`found_step`), and over a stretch of text in which no header starts
(`pass_step`).

Header patterns end with an opening brace and otherwise read names, points
and blanks. So no header starts in a stretch without braces that ends with
another sign: the pattern would have to read past that sign. The predicate
`Ahead` says that the sign is still ahead, and every piece of a pattern
keeps it true.
-/

namespace TypedContent

open List

namespace Source

namespace Pattern

variable {α : Type} {p : Pattern α}

/-! ## Steps of the search -/

theorem getLast?_cons_or (c : Char) (cs : List Char) (before : Option Char) :
    (c :: cs).getLast?.or before = cs.getLast?.or (some c) := by
  rw [getLast?_cons, Option.or_some]
  rfl

theorem matchesFrom_skip (p : Pattern α) (before : Option Char) (cs rest : List Char) :
    p.matchesFrom cs.length before (cs ++ rest)
      = p.matchesFrom 0 (cs.getLast?.or before) rest := by
  induction cs generalizing before with
  | nil => rfl
  | cons c cs ih => rw [cons_append, length_cons, matchesFrom, ih, getLast?_cons_or]

/-- The search finds a header and goes on behind it. -/
theorem found_step {before : Option Char} {header rest : List Char} {x : α}
    (hne : header ≠ []) (h : p before (header ++ rest) = some (x, rest)) :
    p.matchesFrom 0 before (header ++ rest)
      = (x, rest) :: p.matchesFrom 0 header.getLast? rest := by
  obtain ⟨c, cs, rfl⟩ := exists_cons_of_ne_nil hne
  have hlength : (cs ++ rest).length - rest.length = cs.length := by simp
  rw [cons_append] at h ⊢
  rw [matchesFrom, h]
  simp only [hlength]
  rw [matchesFrom_skip, ← getLast?_cons_or c cs none, Option.or_none]

/-- The search passes over a text in which the pattern matches nowhere. -/
theorem pass_step {cs rest : List Char}
    (h : ∀ before tail, tail ≠ [] → tail <:+ cs → p before (tail ++ rest) = none)
    (before : Option Char) :
    p.matchesFrom 0 before (cs ++ rest)
      = p.matchesFrom 0 (cs.getLast?.or before) rest := by
  induction cs generalizing before with
  | nil => rfl
  | cons c cs ih =>
    have hhere := h before (c :: cs) (cons_ne_nil c cs) suffix_rfl
    have hrest :=
      ih fun b tail hne hsuffix => h b tail hne (hsuffix.trans (suffix_cons c cs))
    rw [cons_append] at hhere ⊢
    rw [matchesFrom, hhere]
    simp only [hrest, getLast?_cons_or]

end Pattern

/-! ## Signs that no header contains -/

/-- A character inside of headers. -/
def isHeaderChar (c : Char) : Bool :=
  Text.isWord c || c == '$' || c == '.' || Text.isBlank c

/-- The sign `d` is still ahead in `cs`, with `rest` behind it and no brace
before it. -/
def Ahead (d : Char) (rest cs : List Char) : Prop :=
  ∃ u, cs = u ++ d :: rest ∧ '{' ∉ u

namespace Ahead

variable {d : Char} {rest cs after : List Char}

/-- Reading characters other than the sign does not reach it. -/
theorem of_append {read : List Char} (hread : d ∉ read)
    (h : Ahead d rest (read ++ after)) :
    Ahead d rest after := by
  induction read with
  | nil => exact h
  | cons c read ih =>
    rw [mem_cons, not_or] at hread
    obtain ⟨u, hu, hbrace⟩ := h
    cases u with
    | nil => exact absurd (List.cons.inj hu).1.symm hread.1
    | cons c' u =>
      rw [mem_cons, not_or] at hbrace
      exact ih hread.2 ⟨u, (List.cons.inj hu).2, hbrace.2⟩

theorem word? {word : String} (hword : d ∉ word.toList) (h : Ahead d rest cs)
    (hread : Source.word? word cs = some after) : Ahead d rest after := by
  rw [Source.word?, isPrefixOf?_eq_some_iff_append_eq] at hread
  exact of_append hword (hread ▸ h)

/-- Reading a run of characters of a class that the sign is not in. -/
theorem dropWhile {q : Char → Bool} (hd : q d = false) (h : Ahead d rest cs) :
    Ahead d rest (cs.dropWhile q) := by
  have hread : d ∉ cs.takeWhile q := fun hmem => by
    rw [mem_takeWhile_imp hmem] at hd
    cases hd
  exact of_append hread (by rwa [takeWhile_append_dropWhile])

theorem trimStart (hd : Text.isBlank d = false) (h : Ahead d rest cs) :
    Ahead d rest (Text.trimStart cs) :=
  h.dropWhile hd

theorem blanks? (hd : Text.isBlank d = false) (h : Ahead d rest cs)
    (hread : Source.blanks? cs = some after) : Ahead d rest after := by
  unfold Source.blanks? at hread
  split at hread
  · exact Option.some.inj hread ▸ h.trimStart hd
  · cases hread

theorem run? {q : Char → Bool} {run : List Char} (hd : q d = false) (h : Ahead d rest cs)
    (hread : Source.run? q cs = some (run, after)) : Ahead d rest after := by
  simp only [Source.run?, span_eq_takeWhile_dropWhile] at hread
  split at hread
  · cases hread
  · exact (Prod.mk.inj (Option.some.inj hread)).2 ▸ h.dropWhile hd

theorem name? {name : List Char} (hd : isHeaderChar d = false) (h : Ahead d rest cs)
    (hread : Source.name? cs = some (name, after)) : Ahead d rest after := by
  simp only [isHeaderChar, Text.isWord, Char.isAlphanum, Bool.or_eq_false_iff,
    beq_eq_false_iff_ne] at hd
  obtain ⟨⟨⟨⟨⟨⟨halpha, hdigit⟩, hline⟩, hword⟩, hdollar⟩, hpoint⟩, hblank⟩ := hd
  cases cs with
  | nil => cases hread
  | cons c cs =>
    simp only [Source.name?, span_eq_takeWhile_dropWhile] at hread
    split at hread
    · rename_i hstart
      have hne : d ≠ c := by
        rintro rfl
        simp [halpha, hline, hdollar] at hstart
      have hrun : (Text.isWord d || d == '$') = false := by
        simp [Text.isWord, Char.isAlphanum, halpha, hdigit, hline, hword, hdollar]
      have hahead : Ahead d rest cs :=
        of_append (fun hmem => hne (mem_singleton.1 hmem)) h
      exact (Prod.mk.inj (Option.some.inj hread)).2 ▸ hahead.dropWhile hrun
    · cases hread

/-- The next character is no brace. -/
theorem char?_eq_none (hd : d ≠ '{') (h : Ahead d rest cs) :
    Source.char? '{' cs = none := by
  obtain ⟨u, rfl, hbrace⟩ := h
  cases u with
  | nil => simp [Source.char?, hd]
  | cons c u =>
    have hne : c ≠ '{' := fun heq => hbrace (heq ▸ mem_cons_self)
    simp [Source.char?, hne]

end Ahead

/-- No match of the pattern contains the sign in front of its opening
brace. -/
def Pattern.StopsAt {α : Type} (p : Pattern α) (d : Char) : Prop :=
  ∀ before rest cs, Ahead d rest cs → p before cs = none

/-- The search passes over a stretch without braces that ends with such a
sign. -/
theorem Pattern.StopsAt.pass {α : Type} {p : Pattern α} {d : Char} (h : p.StopsAt d)
    {cs : List Char} (hbrace : '{' ∉ cs) (before : Option Char) (rest : List Char) :
    p.matchesFrom 0 before (cs ++ d :: rest) = p.matchesFrom 0 (some d) rest := by
  have hnone : ∀ before tail, tail ≠ [] → tail <:+ cs ++ [d] →
      p before (tail ++ rest) = none := by
    intro before tail hne hsuffix
    -- such a suffix ends with the sign
    obtain ⟨front, hfront⟩ := hsuffix
    obtain ⟨mid, last, rfl⟩ := (eq_nil_or_concat' tail).resolve_left hne
    rw [← append_assoc] at hfront
    obtain ⟨hcs, hlast⟩ := append_inj' hfront rfl
    refine h before rest _ ⟨mid, ?_,
      fun hmem => hbrace (hcs ▸ mem_append_right front hmem)⟩
    simp [List.cons.inj hlast]
  have hpass := pass_step hnone before
  rwa [append_assoc, singleton_append, getLast?_append, getLast?_singleton,
    Option.some_or, Option.some_or] at hpass

end Source

end TypedContent

import TypedContent.Source.Mark
import TypedContent.Text.Basic

/-!
# Marking, one character at a time

Some characters are marked in pairs: the two signs that open or close a
comment, and an escape with what it escapes. Here marking is told as a scan
that takes one character after the other and looks one ahead
(`mark_eq_scan`). Facts about cutting a text are then one induction on its
characters.

A character that is marked as code leaves the scan where a text starts, so a
text can be cut there, and what stands on either side keeps its marks when
it is read on its own (`marks_split`). The same holds where a text is
followed by blanks (`marks_append_blanks`).
-/

namespace TypedContent

open List

namespace Source

variable {before after : List Marked} {blanks cs : List Char} {s : Scan}
  {c : Char}

/-- Where a scan is: between characters in a mode, or inside a pair of them
after which the mode starts. -/
inductive Scan where
  | between (mode : Mode)
  | inside (mode : Mode)
deriving DecidableEq

namespace Scan

variable {next : Option Char}

/-- The role of a character, and where the scan is after it; `next` is the
character that follows. -/
def step : Scan → Char → Option Char → Role × Scan
  | inside (.literal q), _, _ => (.literal, .between (.literal q))
  | inside mode, _, _ => (.comment, .between mode)
  | .between .code, c, next =>
    if c = '/' ∧ next = some '/' then (.comment, inside .lineComment)
    else if c = '/' ∧ next = some '*' then (.comment, inside .blockComment)
    else if isQuote c then (.literal, .between (.literal c))
    else (.code, .between .code)
  | .between (.literal q), c, next =>
    if c = '\\' ∧ next.isSome then (.literal, inside (.literal q))
    else (.literal, .between (if c = q then .code else .literal q))
  | .between .lineComment, c, _ =>
    (.comment, .between (if c = '\n' then .code else .lineComment))
  | .between .blockComment, c, next =>
    if c = '*' ∧ next = some '/' then (.comment, inside .code)
      else (.comment, .between .blockComment)

def run : Scan → List Char → List Marked
  | _, [] => []
  | s, c :: cs => ⟨(s.step c cs.head?).1, c⟩ :: (s.step c cs.head?).2.run cs

@[simp] theorem run_nil (s : Scan) : s.run [] = [] := rfl

@[simp] theorem run_cons (s : Scan) (c : Char) (cs : List Char) :
    s.run (c :: cs) = ⟨(s.step c cs.head?).1, c⟩ :: (s.step c cs.head?).2.run cs := rfl

@[simp] theorem step_literal_fst (q c : Char) (next : Option Char) :
    ((between (.literal q)).step c next).1 = .literal := by
  simp only [step]
  split <;> rfl

@[simp] theorem step_blockComment_fst (c : Char) (next : Option Char) :
    ((between .blockComment).step c next).1 = .comment := by
  simp only [step]
  split <;> rfl

/-- Only between characters of the code is one marked as code, and there the
scan stays. -/
theorem step_eq_code (h : (s.step c next).1 = .code) :
    s = .between .code ∧ (s.step c next).2 = .between .code ∧ isQuote c = false := by
  rcases s with mode | mode
  · cases mode with
    | code =>
      simp only [step] at h ⊢
      split at h
      · cases h
      · split at h
        · cases h
        · split at h
          · cases h
          · rename_i hline hblock hquote
            rw [if_neg hline, if_neg hblock, if_neg hquote]
            exact ⟨trivial, rfl, by simpa using hquote⟩
    | literal q => simp at h
    | lineComment => cases h
    | blockComment => simp at h
  · cases mode <;> cases h

/-- What follows matters only for a pair. -/
theorem step_none {mode : Mode} (h : (s.step c next).2 = between mode) :
    (s.step c none).1 = (s.step c next).1 := by
  rcases s with m | m
  · cases m with
    | code =>
      simp only [step] at h ⊢
      split at h
      · cases h
      · split at h
        · cases h
        · rename_i hline hblock
          simp [hline, hblock]
    | literal q => rw [step_literal_fst, step_literal_fst]
    | lineComment => rfl
    | blockComment => rw [step_blockComment_fst, step_blockComment_fst]
  · cases m <;> rfl

theorem step_code (hquote : isQuote c = false) (hslash : c ≠ '/') (next : Option Char) :
    (between .code).step c next = (.code, between .code) := by
  simp [step, hquote, hslash]

/-- A text is cut at a character of the code, and goes on from there as from
its start. -/
theorem run_split (hc : c ≠ '/') (h : s.run cs = before ++ ⟨.code, c⟩ :: after) :
    ∃ left right, cs = left ++ c :: right ∧ s.run left = before
      ∧ (between .code).run right = after
      ∧ ∀ rest, s.run (left ++ c :: rest)
        = before ++ ⟨.code, c⟩ :: (between .code).run rest := by
  induction cs generalizing s before with
  | nil => cases before <;> cases h
  | cons d cs ih =>
    cases before with
    | nil =>
      obtain ⟨hmark, rfl⟩ := List.cons.inj h
      obtain ⟨hrole, rfl⟩ := Marked.mk.inj hmark
      obtain ⟨rfl, hafter, hquote⟩ := step_eq_code hrole
      refine ⟨[], cs, rfl, rfl, by rw [hafter], fun rest => ?_⟩
      rw [nil_append, run_cons, step_code hquote hc]
      rfl
    | cons m before =>
      obtain ⟨rfl, hrest⟩ := List.cons.inj h
      obtain ⟨left, right, rfl, hleft, hright, happend⟩ := ih hrest
      have hhead : ∀ rest, (left ++ c :: rest).head? = (left ++ c :: right).head? := by
        intro rest
        cases left <;> rfl
      refine ⟨d :: left, right, rfl, ?_, hright, fun rest => ?_⟩
      · cases left with
        | nil =>
          -- `c` is marked as code, so no pair goes on into it
          have hcode : (s.step d (some c)).2 = between .code := by
            rw [run_nil] at hleft
            subst hleft
            exact (step_eq_code (Marked.mk.inj (List.cons.inj hrest).1).1).1
          rw [run_cons, run_nil, head?_nil, step_none hcode, ← hleft]
          rfl
        | cons e left => rw [run_cons, ← hleft]; rfl
      · rw [cons_append, run_cons, hhead, happend]
        rfl

/-- A blank neither continues a pair nor starts one, so that blanks behind a
text leave its marks alone. -/
theorem run_append_blanks (s : Scan) (cs : List Char)
    (h : ∀ c ∈ blanks, Text.isBlank c = true) :
    ∃ ms, s.run (cs ++ blanks) = s.run cs ++ ms := by
  have hrole : ∀ (s : Scan) (c : Char),
      (s.step c blanks.head?).1 = (s.step c none).1 := by
    intro s c
    cases hhead : blanks.head? with
    | none => rfl
    | some b =>
      have hblank : Text.isBlank b = true := h b (mem_of_mem_head? hhead)
      have hslash : b ≠ '/' := by rintro rfl; cases hblank
      have hstar : b ≠ '*' := by rintro rfl; cases hblank
      rcases s with mode | mode
      · cases mode with
        | code => simp [step, hslash, hstar]
        | literal q => rw [step_literal_fst, step_literal_fst]
        | lineComment => rfl
        | blockComment => rw [step_blockComment_fst, step_blockComment_fst]
      · cases mode <;> rfl
  induction cs generalizing s with
  | nil => exact ⟨s.run blanks, rfl⟩
  | cons c cs ih =>
    cases cs with
    | nil => exact ⟨_, by rw [cons_append, nil_append, run_cons, run_cons, hrole]; rfl⟩
    | cons d cs =>
      obtain ⟨ms, hms⟩ := ih (s.step c (some d)).2
      exact ⟨ms, by
        rw [cons_append, run_cons, run_cons]; exact congrArg (List.cons _) hms⟩

end Scan

theorem mark_eq_scan (mode : Mode) (cs : List Char) :
    mark mode cs = (Scan.between mode).run cs := by
  fun_induction mark mode cs with
  | case1 => rfl
  | case2 cs ih => simp [Scan.step, ih]
  | case3 cs ih => simp [Scan.step, ih]
  | case4 c cs hline hblock hquote ih =>
    have hslash : c ≠ '/' := by
      rintro rfl
      exact absurd hquote (by decide)
    simp [Scan.step, ih, hslash, hquote]
  | case5 c cs hline hblock hquote ih =>
    have hnext :
        ¬ (c = '/' ∧ cs.head? = some '/') ∧ ¬ (c = '/' ∧ cs.head? = some '*') := by
      cases cs with
      | nil => simp
      | cons d cs =>
        constructor <;> rintro ⟨rfl, hd⟩ <;> obtain rfl := Option.some.inj hd
        · exact hline _ rfl rfl
        · exact hblock _ rfl rfl
    simp [Scan.step, ih, hnext, hquote]
  | case6 q c cs ih => simp [Scan.step, ih]
  | case7 q c cs hescape ih =>
    have hnext : ¬ (c = '\\' ∧ cs.head?.isSome) := by
      rintro ⟨rfl, hsome⟩
      cases cs with
      | nil => cases hsome
      | cons d cs => exact hescape _ _ rfl rfl
    simp only [Scan.run_cons, Scan.step, if_neg hnext, ih]
  | case8 c cs ih => simp [Scan.step, ih]
  | case9 cs ih => simp [Scan.step, ih]
  | case10 c cs hend ih =>
    have hnext : ¬ (c = '*' ∧ cs.head? = some '/') := by
      rintro ⟨rfl, hd⟩
      cases cs with
      | nil => cases hd
      | cons d cs => exact hend _ rfl (by rw [Option.some.inj hd])
    simp only [Scan.run_cons, Scan.step, if_neg hnext, ih]

/-- A text is cut at a character of the code, and both sides keep their
marks. -/
theorem marks_split (hc : c ≠ '/') (h : marks cs = before ++ ⟨.code, c⟩ :: after) :
    ∃ left right, cs = left ++ c :: right ∧ marks left = before ∧ marks right = after
      ∧ ∀ rest, marks (left ++ c :: rest) = before ++ ⟨.code, c⟩ :: marks rest := by
  simp only [marks, mark_eq_scan] at h ⊢
  exact Scan.run_split hc h

/-- Where a character behind a text belongs to the code, the text and what
follows the character keep their marks. -/
theorem marks_append_cons (hc : c ≠ '/')
    (h : (marks (cs ++ [c])).getLast? = some ⟨.code, c⟩) (rest : List Char) :
    marks (cs ++ c :: rest) = marks cs ++ ⟨.code, c⟩ :: marks rest := by
  obtain ⟨before, hbefore⟩ := getLast?_eq_some_iff.1 h
  obtain ⟨left, right, hcs, hleft, hright, happend⟩ := marks_split hc hbefore
  obtain rfl : right = [] := by
    rw [← unmark_marks right, hright]
    rfl
  obtain ⟨rfl, -⟩ := append_inj' hcs rfl
  rw [happend, hleft]

theorem marks_append_blanks (cs : List Char) (h : ∀ c ∈ blanks, Text.isBlank c = true) :
    ∃ ms, marks (cs ++ blanks) = marks cs ++ ms := by
  simp only [marks, mark_eq_scan]
  exact Scan.run_append_blanks _ cs h

end Source

end TypedContent

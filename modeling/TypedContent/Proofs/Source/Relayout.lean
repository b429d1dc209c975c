import TypedContent.Proofs.Source.SingleSpacing

/-!
# Changes of layout

A run of blanks in the code may become another run of blanks, or a comment
may be put into it. Either way the marked text is the same on both sides of
the run, and the run is a gap before and after the change; so the
single-spaced text stays the same (`spaced_of_relaid`).
-/

namespace TypedContent

namespace Source

open List Text

variable {cs blanks : List Char}

/-! ## Comments -/

/-- The text of a comment, from its first character through its last. -/
inductive IsComment : List Char → Prop where
  | block {cs : List Char} (h : ¬ ['*', '/'] <:+: cs) :
      IsComment ('/' :: '*' :: (cs ++ ['*', '/']))
  | line {cs : List Char} (h : '\n' ∉ cs) : IsComment ('/' :: '/' :: (cs ++ ['\n']))

theorem mark_blockComment (h : ¬ ['*', '/'] <:+: cs) (rest : List Char) :
    mark .blockComment (cs ++ '*' :: '/' :: rest)
      = (cs ++ ['*', '/']).map (Marked.mk .comment) ++ marks rest := by
  induction cs with
  | nil => rfl
  | cons c cs ih =>
    have hcs : ¬ ['*', '/'] <:+: cs := fun hinfix => h (infix_cons hinfix)
    rw [cons_append, mark]
    · rw [ih hcs]
      rfl
    · rintro more rfl hmore
      cases cs with
      | nil => cases hmore
      | cons d cs =>
        obtain ⟨rfl, -⟩ := List.cons.inj hmore
        exact h ⟨[], cs, rfl⟩

theorem mark_lineComment (h : '\n' ∉ cs) (rest : List Char) :
    mark .lineComment (cs ++ '\n' :: rest)
      = (cs ++ ['\n']).map (Marked.mk .comment) ++ marks rest := by
  induction cs with
  | nil => rfl
  | cons c cs ih =>
    rw [mem_cons, not_or] at h
    rw [cons_append, mark, if_neg (fun heq => h.1 heq.symm), ih h.2]
    rfl

/-- A comment is read as one, whatever follows it. -/
theorem IsComment.marks_append {comment : List Char} (h : IsComment comment)
    (rest : List Char) :
    marks (comment ++ rest) = comment.map (Marked.mk .comment) ++ marks rest := by
  cases h with
  | block h =>
    rw [cons_append, cons_append, append_assoc, marks, mark]
    rw [cons_append, singleton_append, mark_blockComment h]
    rfl
  | line h =>
    rw [cons_append, cons_append, append_assoc, marks, mark]
    rw [singleton_append, mark_lineComment h]
    rfl

/-! ## Runs of blanks -/

theorem marks_blanks_append (h : ∀ c ∈ blanks, isBlank c = true) (rest : List Char) :
    marks (blanks ++ rest) = blanks.map (Marked.mk .code) ++ marks rest := by
  induction blanks with
  | nil => rfl
  | cons c blanks ih =>
    rw [forall_mem_cons] at h
    obtain ⟨hquote, hslash⟩ := isQuote_of_isBlank h.1
    rw [cons_append, marks_cons hquote hslash, ih h.2]
    rfl

namespace Scan

/-- What follows the last character before a blank of the code matters only
if it makes a comment with it. -/
theorem step_before_blank {s : Scan} {c d : Char} {next : Option Char}
    (hd : isBlank d = true) (h : (s.step c (some d)).2 = between .code)
    (hnext : c ≠ '/' ∨ next ≠ some '/' ∧ next ≠ some '*') :
    (s.step c next).2 = between .code := by
  have hslash : d ≠ '/' := (isQuote_of_isBlank hd).2
  have hstar : d ≠ '*' := by
    rintro rfl
    cases hd
  rcases s with mode | mode
  · cases mode with
    | code =>
      have hline : ¬ (c = '/' ∧ next = some '/') :=
        fun heq => hnext.elim (· heq.1) (·.1 heq.2)
      have hblock : ¬ (c = '/' ∧ next = some '*') :=
        fun heq => hnext.elim (· heq.1) (·.2 heq.2)
      simp only [step, Option.some.injEq, hslash, hstar, and_false, if_false] at h
      simp only [step, if_neg hline, if_neg hblock]
      exact h
    | literal q =>
      have hescape : c ≠ '\\' := by
        rintro rfl
        cases h
      simpa [step, hescape] using h
    | lineComment => exact h
    | blockComment =>
      simp only [step, Option.some.injEq, hslash, and_false, if_false] at h
      cases h
  · cases mode <;> exact h

theorem run_append {s : Scan} {before rest rest' : List Char} {d : Char}
    (hd : isBlank d = true)
    (h : ((s.run (before ++ d :: rest)).drop before.length).head?.map
      Marked.role = some .code)
    (hrest : before.getLast? ≠ some '/'
      ∨ rest'.head? ≠ some '/' ∧ rest'.head? ≠ some '*') :
    s.run (before ++ rest') = s.run before ++ (between .code).run rest' := by
  induction before generalizing s with
  | nil =>
    obtain ⟨rfl, -, -⟩ := step_eq_code (Option.some.inj h)
    rfl
  | cons c before ih =>
    cases before with
    | nil =>
      have hcode : (s.step c (some d)).2 = between .code :=
        (step_eq_code (Option.some.inj h)).1
      have hlast : c ≠ '/' ∨ rest'.head? ≠ some '/' ∧ rest'.head? ≠ some '*' :=
        hrest.imp_left fun hne heq => hne (congrArg some heq)
      have hstep := step_before_blank hd hcode hlast
      rw [cons_append, nil_append, run_cons, run_cons, run_nil, head?_nil, hstep,
        step_none hstep]
      rfl
    | cons e before =>
      rw [getLast?_cons_cons] at hrest
      have happend := ih (s := (s.step c (some e)).2) h hrest
      rw [cons_append, run_cons, run_cons]
      exact congrArg (List.cons _) happend

end Scan

/-- Blanks of the code between two texts. -/
structure IsCodeRun (before run after : List Char) : Prop where
  ne_nil : run ≠ []
  blank : ∀ c ∈ run, isBlank c = true
  code : ∀ m ∈ ((marks (before ++ (run ++ after))).drop before.length).take run.length,
    m.role = .code

/-- The marks of a text that may follow what stands before a run. -/
theorem IsCodeRun.marks_append {before run after : List Char}
    (h : IsCodeRun before run after) {rest : List Char}
    (hrest : before.getLast? ≠ some '/'
      ∨ rest.head? ≠ some '/' ∧ rest.head? ≠ some '*') :
    marks (before ++ rest) = marks before ++ marks rest := by
  obtain ⟨hne, hblank, hcode⟩ := h
  obtain ⟨d, run, rfl⟩ := exists_cons_of_ne_nil hne
  have hhead : ((marks (before ++ (d :: run ++ after))).drop before.length).head?.map
      Marked.role = some .code := by
    cases hdrop : (marks (before ++ (d :: run ++ after))).drop before.length with
    | nil =>
      have hlength := congrArg List.length (unmark_marks (before ++ (d :: run ++ after)))
      rw [drop_eq_nil_iff] at hdrop
      simp only [unmark, length_map, length_append, length_cons] at hlength hdrop
      omega
    | cons m ms =>
      rw [hdrop] at hcode
      exact congrArg some (hcode m mem_cons_self)
  simp only [marks, mark_eq_scan] at hhead ⊢
  exact Scan.run_append (hblank d mem_cons_self) hhead hrest

/-! ## Changes -/

/-- One change of layout: a run of blanks of the code becomes another one,
or a comment is put into it. A slash right before the comment would be read
with it. -/
inductive Relaid : List Char → List Char → Prop where
  | blanks {before run run' after : List Char} (h : IsCodeRun before run after)
      (hne : run' ≠ [])
      (hblank : ∀ c ∈ run', isBlank c = true) :
      Relaid (before ++ (run ++ after)) (before ++ (run' ++ after))
  | comment {before left right after comment : List Char}
      (h : IsCodeRun before (left ++ right) after)
      (hcomment : IsComment comment) (hslash : left = [] → before.getLast? ≠ some '/') :
      Relaid (before ++ (left ++ right ++ after))
        (before ++ (left ++ (comment ++ (right ++ after))))

theorem isGap_of_mem_blanks (h : ∀ c ∈ blanks, isBlank c = true) :
    ∀ m ∈ blanks.map (Marked.mk .code), m.isGap = true := by
  intro m hm
  obtain ⟨c, hc, rfl⟩ := mem_map.1 hm
  simp [Marked.isGap, h c hc]

theorem isGap_of_mem_comment (comment : List Char) :
    ∀ m ∈ comment.map (Marked.mk .comment), m.isGap = true := by
  intro m hm
  obtain ⟨c, -, rfl⟩ := mem_map.1 hm
  rfl

theorem head?_blanks (hne : blanks ≠ []) (h : ∀ c ∈ blanks, isBlank c = true)
    (rest : List Char) :
    (blanks ++ rest).head? ≠ some '/' ∧ (blanks ++ rest).head? ≠ some '*' := by
  obtain ⟨c, cs, rfl⟩ := exists_cons_of_ne_nil hne
  have hc := h c mem_cons_self
  constructor <;> rintro heq <;> obtain rfl := Option.some.inj heq <;> cases hc

/-- A change of layout does not change the single-spaced text. -/
theorem spaced_of_relaid {cs' : List Char} (h : Relaid cs cs') :
    spaced (marks cs) = spaced (marks cs') := by
  cases h with
  | @blanks before run run' after h hne hblank =>
    rw [h.marks_append (.inr (head?_blanks h.ne_nil h.blank after)),
      h.marks_append (.inr (head?_blanks hne hblank after)),
      marks_blanks_append h.blank, marks_blanks_append hblank]
    exact condense_run_congr (by simpa using h.ne_nil) (by simpa using hne)
      (isGap_of_mem_blanks h.blank)
      (isGap_of_mem_blanks hblank) _ _
  | @comment before left right after comment h hcomment hslash =>
    have hblank := h.blank
    rw [forall_mem_append] at hblank
    have hfront : before.getLast? ≠ some '/'
        ∨ (left ++ (comment ++ (right ++ after))).head? ≠ some '/'
        ∧ (left ++ (comment ++ (right ++ after))).head? ≠ some '*' := by
      by_cases hleft : left = []
      · exact .inl (hslash hleft)
      · exact .inr (head?_blanks hleft hblank.1 _)
    have hne : comment.map (Marked.mk .comment) ≠ [] := by
      cases hcomment <;> simp
    rw [h.marks_append (.inr (head?_blanks h.ne_nil h.blank after)),
      h.marks_append hfront, marks_blanks_append h.blank, marks_blanks_append hblank.1,
      hcomment.marks_append, marks_blanks_append hblank.2]
    have hgap : ∀ m ∈ left.map (Marked.mk .code)
        ++ (comment.map (Marked.mk .comment) ++ right.map (Marked.mk .code)),
        m.isGap = true :=
      forall_mem_append.2 ⟨isGap_of_mem_blanks hblank.1,
        forall_mem_append.2 ⟨isGap_of_mem_comment comment, isGap_of_mem_blanks hblank.2⟩⟩
    have hcongr :
        spaced (marks before ++ ((left ++ right).map (Marked.mk .code) ++ marks after))
          = spaced (marks before
        ++ ((left.map (Marked.mk .code)
          ++ (comment.map (Marked.mk .comment) ++ right.map (Marked.mk .code)))
          ++ marks after)) :=
      condense_run_congr (by simpa using h.ne_nil) (by simp [hne])
        (isGap_of_mem_blanks h.blank) hgap _ _
    simpa only [append_assoc] using hcongr

end Source

end TypedContent

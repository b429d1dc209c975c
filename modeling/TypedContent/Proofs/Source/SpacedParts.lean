import Mathlib.Data.List.DropRight
import TypedContent.Proofs.Source.SpacedBlocks

/-!
# Layout of parts

The cut of a text at separators steps over gaps as the search for a block
does: the segments of a single-spaced text are the single-spaced segments of
the text (`segments_singleSpaced`). One detail of the cut looks at the
character right before a bracket, the equals sign of an arrow. A comment may
hold an equals sign, but never as its last character, so what stands before
a token is none after a gap, whatever the gap is (`closesPlainly_marks`).

Parts are trimmed and not empty. A part that consists of comments is the
only one that single spacing loses (`parts_tight`).
-/

namespace TypedContent

namespace Source

open List Text

variable {c : Char} {s : Scan} {cs : List Char} {ms : List Marked} {m : Marked}

theorem opensNesting_of_isBlank (h : isBlank c = true) :
    opensNesting c = false ∧ closesNesting c = false := by
  constructor
  · cases hopen : opensNesting c with
    | false => rfl
    | true =>
      simp only [opensNesting, Bool.or_eq_true, beq_iff_eq] at hopen
      rcases hopen with ((rfl | rfl) | rfl) | rfl <;> cases h
  · cases hclose : closesNesting c with
    | false => rfl
    | true =>
      simp only [closesNesting, Bool.or_eq_true, beq_iff_eq] at hclose
      rcases hclose with ((rfl | rfl) | rfl) | rfl <;> cases h

/-! ## The end of a comment -/

/-- No comment ends in an equals sign. -/
def ClosesPlainly (ms : List Marked) : Prop :=
  ms.IsChain fun m next => m.role = .comment → next.role ≠ .comment → m.char ≠ '='

namespace Scan

/-- A pair ends in the code only with the slash that closes a comment. -/
theorem head?_of_step_eq_inside_code {next : Option Char}
    (h : (s.step c next).2 = inside .code) :
    next = some '/' := by
  rcases s with mode | mode
  · cases mode with
    | code =>
      simp only [step] at h
      split at h
      · cases h
      · split at h
        · cases h
        · split at h <;> cases h
    | literal q =>
      simp only [step] at h
      split at h <;> cases h
    | lineComment => cases h
    | blockComment =>
      simp only [step] at h
      split at h
      · rename_i hclose
        exact hclose.2
      · cases h
  · cases mode <;> cases h

/-- A comment goes on behind an equals sign in it. -/
theorem step_comment_equals {next : Option Char} (hs : s ≠ inside .code)
    (h : (s.step '=' next).1 = .comment) (d : Char) (next' : Option Char) :
    ((s.step '=' next).2.step d next').1 = .comment := by
  rcases s with mode | mode
  · cases mode with
    | code => cases h
    | literal q =>
      rw [step_literal_fst] at h
      cases h
    | lineComment => rfl
    | blockComment => exact step_blockComment_fst d next'
  · cases mode with
    | code => exact absurd rfl hs
    | literal q => cases h
    | lineComment => rfl
    | blockComment => exact step_blockComment_fst d next'

theorem closesPlainly_run (hs : s = inside .code → cs.head? = some '/') :
    ClosesPlainly (s.run cs) := by
  induction cs generalizing s with
  | nil => exact .nil
  | cons c cs ih =>
    rw [run_cons, ClosesPlainly, isChain_cons]
    refine ⟨?_, ih head?_of_step_eq_inside_code⟩
    rintro m hm hrole hnext rfl
    have hcode : s ≠ inside .code := fun heq => by cases hs heq
    cases cs with
    | nil => cases hm
    | cons d cs =>
      obtain rfl := Option.some.inj hm
      exact hnext (step_comment_equals hcode hrole d cs.head?)

end Scan

theorem closesPlainly_marks (cs : List Char) : ClosesPlainly (marks cs) := by
  rw [marks, mark_eq_scan]
  exact Scan.closesPlainly_run (fun h => by cases h)

/-! ## Segments -/

/-- `segmentsFrom` with the marks of the segments. -/
def markedSegments (separators : List Char) :
    Nat → Bool → List Marked → List (List Marked)
  | _, _, [] => [[]]
  | depth, afterEquals, m :: ms =>
    if isCut separators depth m then []
      :: markedSegments separators depth (m.char == '=') ms
    else
      (markedSegments separators (depthAfter depth afterEquals m)
        (m.char == '=') ms).modifyHead (m :: ·)

variable {separators : List Char}

theorem exists_markedSegments (separators : List Char) (depth : Nat)
    (afterEquals : Bool) (ms : List Marked) :
    ∃ first rest, markedSegments separators depth afterEquals ms = first :: rest := by
  induction ms generalizing depth afterEquals with
  | nil => exact ⟨[], [], rfl⟩
  | cons m ms ih =>
    rw [markedSegments]
    split
    · exact ⟨_, _, rfl⟩
    · obtain ⟨first, rest, hsegments⟩ :=
        ih (depthAfter depth afterEquals m) (m.char == '=')
      exact ⟨m :: first, rest, by rw [hsegments]; rfl⟩

theorem segmentsFrom_eq_marked (depth : Nat) (afterEquals : Bool) (ms : List Marked) :
    segmentsFrom separators depth afterEquals ms
      = (markedSegments separators depth afterEquals ms).map unmark := by
  induction ms generalizing depth afterEquals with
  | nil => rfl
  | cons m ms ih =>
    rw [segmentsFrom, markedSegments]
    split
    · rw [ih]
      rfl
    · obtain ⟨first, rest, hsegments⟩ :=
        exists_markedSegments separators (depthAfter depth afterEquals m)
          (m.char == '=') ms
      rw [ih, hsegments]
      rfl

/-- Either nothing is cut, or the first segment ends right before a
separator of the code. -/
theorem markedSegments_cases (separators : List Char) (depth : Nat)
    (afterEquals : Bool) (ms : List Marked) :
    markedSegments separators depth afterEquals ms = [ms]
      ∨ ∃ first c rest depth' afterEquals',
        ms = first ++ ⟨.code, c⟩ :: rest ∧ c ∈ separators
        ∧ markedSegments separators depth afterEquals ms
          = first :: markedSegments separators depth' afterEquals' rest := by
  induction ms generalizing depth afterEquals with
  | nil => exact .inl rfl
  | cons m ms ih =>
    rw [markedSegments]
    split
    · rename_i hcut
      simp only [isCut, Bool.and_eq_true, beq_iff_eq, contains_iff_mem] at hcut
      refine .inr ⟨[], m.char, ms, depth, m.char == '=', ?_, hcut.1.1.2, rfl⟩
      rw [← hcut.1.1.1.1]
      rfl
    · rcases ih (depthAfter depth afterEquals m) (m.char == '=') with hone
        | ⟨first, c, rest, d, e, rfl, hc, hcons⟩
      · exact .inl (by rw [hone]; rfl)
      · exact .inr ⟨m :: first, c, rest, d, e, rfl, hc, by rw [hcons]; rfl⟩

theorem Lexed.of_mem_markedSegments (hslash : '/' ∉ separators)
    {segment : List Marked} {depth : Nat} {afterEquals : Bool} (hms : Lexed ms)
    (h : segment ∈ markedSegments separators depth afterEquals ms) :
    Lexed segment := by
  induction hlength :
    ms.length using Nat.strongRecOn generalizing ms depth afterEquals with
  | ind n ih =>
    rcases markedSegments_cases separators depth afterEquals ms with hone
      | ⟨first, c, rest, d, e, rfl, hc, hcons⟩
    · rw [hone, mem_singleton] at h
      exact h ▸ hms
    · obtain ⟨hfirst, hrest⟩ := hms.split (fun heq => hslash (heq ▸ hc))
      rw [hcons, mem_cons] at h
      rcases h with rfl | h
      · exact hfirst
      · refine ih rest.length ?_ hrest h rfl
        rw [← hlength, length_append, length_cons]
        omega

/-- Only a closing angle bracket asks for the sign before it. -/
theorem markedSegments_congr (h : ms.head? ≠ some ⟨.code, '>'⟩) (depth : Nat)
    (afterEquals afterEquals' : Bool) :
    markedSegments separators depth afterEquals ms
      = markedSegments separators depth afterEquals' ms := by
  cases ms with
  | nil => rfl
  | cons m ms =>
    have hdepth : depthAfter depth afterEquals m = depthAfter depth afterEquals' m := by
      unfold depthAfter
      split
      · rfl
      · rename_i hrole
        have hchar : (m.char == '>') = false := by
          rw [beq_eq_false_iff_ne]
          intro hchar
          apply h
          rw [head?_cons, ← hchar, ← not_not.1 hrole]
        rw [hchar]
        rfl
    rw [markedSegments, markedSegments, hdepth]

theorem isCut_of_isInert (hblank : ∀ c ∈ separators, isBlank c = false)
    (h : m.isInert = true) (depth : Nat) :
    isCut separators depth m = false := by
  rcases isInert_iff.1 h with hrole | hchar
  · simp [isCut, hrole]
  · have hnot : m.char ∉ separators := fun hmem => by
      rw [hblank m.char hmem] at hchar
      cases hchar
    simp [isCut, hnot]

theorem depthAfter_of_isInert (h : m.isInert = true) (depth : Nat) (afterEquals : Bool) :
    depthAfter depth afterEquals m = depth := by
  rcases isInert_iff.1 h with hrole | hchar
  · simp [depthAfter, hrole]
  · obtain ⟨hopens, hcloses⟩ := opensNesting_of_isBlank hchar
    simp [depthAfter, hopens, hcloses]

theorem markedSegments_cons_inert (hblank : ∀ c ∈ separators, isBlank c = false)
    (h : m.isInert = true) (depth : Nat) (afterEquals : Bool) (ms : List Marked) :
    markedSegments separators depth afterEquals (m :: ms)
      = (markedSegments separators depth (m.char == '=') ms).modifyHead (m :: ·) := by
  rw [markedSegments, if_neg (by simp [isCut_of_isInert hblank h]),
    depthAfter_of_isInert h]

/-- The first segment starts with a gap if the text does. -/
theorem head?_markedSegments (hblank : ∀ c ∈ separators, isBlank c = false)
    {depth : Nat} {afterEquals : Bool} {first : List Marked}
    {rest : List (List Marked)}
    (h : markedSegments separators depth afterEquals ms = first :: rest) :
    first.head?.any Marked.isGap = ms.head?.any Marked.isGap := by
  cases ms with
  | nil =>
    obtain ⟨rfl, -⟩ := List.cons.inj h
    rfl
  | cons m ms =>
    rw [markedSegments] at h
    split at h
    · rename_i hcut
      obtain ⟨rfl, -⟩ := List.cons.inj h
      cases hgap : m.isGap with
      | false => simp [hgap]
      | true =>
        rw [isCut_of_isInert hblank (isInert_of_isGap hgap)] at hcut
        cases hcut
    · obtain ⟨first', rest', hsegments⟩ :=
        exists_markedSegments separators (depthAfter depth afterEquals m)
          (m.char == '=') ms
      rw [hsegments] at h
      obtain ⟨rfl, -⟩ := List.cons.inj h
      rfl

theorem markedSegments_spaced (hblank : ∀ c ∈ separators, isBlank c = false)
    (hms : ClosesPlainly ms) (depth : Nat) (afterEquals : Bool) :
    markedSegments separators depth afterEquals (spaced ms)
      = (markedSegments separators depth afterEquals ms).map spaced := by
  induction ms generalizing depth afterEquals with
  | nil => rfl
  | cons m ms ih =>
    rw [ClosesPlainly, isChain_cons] at hms
    cases hgap : m.isGap with
    | false =>
      rw [spaced_cons hgap, markedSegments, markedSegments]
      split
      · rw [ih hms.2]
        rfl
      · obtain ⟨first, rest, hsegments⟩ :=
          exists_markedSegments separators (depthAfter depth afterEquals m)
            (m.char == '=') ms
        rw [ih hms.2, hsegments]
        exact congrArg (· :: rest.map spaced) (spaced_cons hgap first).symm
    | true =>
      have hinert := isInert_of_isGap hgap
      obtain ⟨first, rest, hsegments⟩ :=
        exists_markedSegments separators depth (m.char == '=') ms
      have hspaced := spaced_cons_of_isGap hgap first
      rw [head?_markedSegments hblank hsegments] at hspaced
      rw [markedSegments_cons_inert hblank hinert, hsegments, spaced_cons_of_isGap hgap]
      split
      · rename_i hnext
        rw [if_pos hnext] at hspaced
        have hhead : (spaced ms).head? ≠ some ⟨.code, '>'⟩ := by
          rw [spaced, head?_condense, if_pos hnext]
          decide
        rw [markedSegments_congr hhead depth afterEquals (m.char == '='),
          ih hms.2, hsegments]
        exact congrArg (· :: rest.map spaced) hspaced.symm
      · rename_i hnext
        rw [if_neg hnext] at hspaced
        -- the sign before the next token is the end of a gap
        have hend : markedSegments separators depth false (spaced ms)
            = markedSegments separators depth (m.char == '=') (spaced ms) := by
          cases hequals : m.char == '=' with
          | false => rfl
          | true =>
            rw [beq_iff_eq] at hequals
            have hcomment : m.role = .comment := by
              simpa [Marked.isGap, hequals, show isBlank '=' = false from rfl] using hgap
            cases ms with
            | nil => rfl
            | cons next ms =>
              refine absurd hequals (hms.1 next rfl hcomment fun hrole => hnext ?_)
              simp [Marked.isGap, hrole]
        rw [markedSegments_cons_inert hblank rfl]
        show (markedSegments separators depth false (spaced ms)).modifyHead _ = _
        rw [hend, ih hms.2, hsegments]
        exact congrArg (· :: rest.map spaced) hspaced.symm

/-- The segments of a text in any layout. -/
theorem segments_singleSpaced (hblank : ∀ c ∈ separators, isBlank c = false)
    (hslash : '/' ∉ separators) (cs : List Char) :
    segments separators (singleSpaced cs) = (segments separators cs).map singleSpaced :=
  by
  rw [segments, segments, segmentsFrom_eq_marked, segmentsFrom_eq_marked,
    marks_singleSpaced, markedSegments_spaced hblank (closesPlainly_marks cs),
    map_map, map_map]
  refine map_congr_left fun segment hsegment => ?_
  exact ((lexed_marks cs).of_mem_markedSegments hslash hsegment).singleSpaced_unmark.symm

/-! ## Trimming -/

theorem trimEnd_cons_congr {xs ys : List Char} (h : trimEnd xs = trimEnd ys) (c : Char) :
    trimEnd (c :: xs) = trimEnd (c :: ys) := by
  have hcons : ∀ cs, trimEnd (c :: cs) = trimEnd (c :: trimEnd cs) := by
    intro cs
    obtain ⟨blanks, hcs, hblank⟩ := exists_trimEnd_append cs
    conv_lhs => rw [hcs, ← cons_append, trimEnd_append_blanks hblank]
  rw [hcons xs, h, ← hcons ys]

theorem isBlank_of_mem_spaced (h : ∀ m ∈ ms, isBlank m.char = true) :
    ∀ c ∈ unmark (spaced ms), isBlank c = true := by
  intro c hc
  obtain ⟨m, hm, rfl⟩ := mem_map.1 hc
  rcases mem_condense hm with rfl | ⟨hmem, -⟩
  · rfl
  · exact h m hmem

/-- Blanks behind a text leave no trace but blanks. -/
theorem trimEnd_spaced_append {blanks : List Marked}
    (h : ∀ m ∈ blanks, isBlank m.char = true) (ms : List Marked) :
    trimEnd (unmark (spaced (ms ++ blanks))) = trimEnd (unmark (spaced ms)) := by
  induction ms with
  | nil => exact trimEnd_eq_nil (isBlank_of_mem_spaced h)
  | cons m ms ih =>
    rw [cons_append]
    cases hgap : m.isGap with
    | false =>
      rw [spaced_cons hgap, spaced_cons hgap]
      exact trimEnd_cons_congr ih m.char
    | true =>
      rw [spaced_cons_of_isGap hgap, spaced_cons_of_isGap hgap]
      cases ms with
      | nil =>
        have hspace :
            trimEnd (unmark (⟨.code, ' '⟩ :: spaced ([] ++ blanks))) = trimEnd [' '] :=
          trimEnd_cons_congr ih ' '
        split
        · exact ih
        · exact hspace
      | cons next ms =>
        rw [cons_append, head?_cons, head?_cons]
        split
        · exact ih
        · exact trimEnd_cons_congr ih ' '

/-- A text without blanks at its ends and with single spaces inside. -/
def tight (cs : List Char) : List Char :=
  trim (singleSpaced cs)

theorem tight_eq (cs : List Char) :
    tight cs = trimEnd (unmark (spaced ((marks cs).dropWhile Marked.isGap))) := by
  rw [tight, trim, trimStart_singleSpaced, singleSpaced, marks_dropGap]

theorem tight_trim (cs : List Char) : tight (trim cs) = tight cs := by
  obtain ⟨blanks, hmarks, hblank⟩ := marks_trimEnd (trimStart cs)
  have hstart : (marks (trimStart cs)).dropWhile Marked.isGap
      = (marks cs).dropWhile Marked.isGap := by
    rw [← marks_dropGap, dropGap_trimStart, marks_dropGap]
  rw [tight_eq, tight_eq, ← hstart, hmarks, dropWhile_append, trim]
  split
  · rename_i hnil
    rw [List.isEmpty_iff] at hnil
    rw [hnil]
    exact (trimEnd_eq_nil (isBlank_of_mem_spaced fun m hm =>
      hblank m (dropWhile_suffix _ |>.subset hm))).symm
  · exact (trimEnd_spaced_append hblank _).symm

/-! ## Parts -/

theorem segmentsFrom_inert (hblank : ∀ c ∈ separators, isBlank c = false)
    (h : ∀ m ∈ ms, m.isInert = true) (depth : Nat) (afterEquals : Bool) :
    segmentsFrom separators depth afterEquals ms = [unmark ms] := by
  induction ms generalizing depth afterEquals with
  | nil => rfl
  | cons m ms ih =>
    rw [forall_mem_cons] at h
    rw [segmentsFrom, if_neg (by simp [isCut_of_isInert hblank h.1]), ih h.2]
    rfl

theorem map_trim_segments_trimStart (hblank : ∀ c ∈ separators, isBlank c = false)
    (cs : List Char) :
    (segments separators (trimStart cs)).map trim
      = (segments separators cs).map trim := by
  induction cs with
  | nil => rfl
  | cons c cs ih =>
    cases hc : isBlank c with
    | false => rw [trimStart_cons hc]
    | true =>
      obtain ⟨hquote, hslash⟩ := isQuote_of_isBlank hc
      have hinert : Marked.isInert ⟨.code, c⟩ = true := isInert_iff.2 (.inr hc)
      have hequals : (c == '=') = false := by
        rw [beq_eq_false_iff_ne]
        rintro rfl
        cases hc
      have hcons :
          segments separators (c :: cs) = consSegment c (segments separators cs) := by
        rw [segments, marks_cons hquote hslash, segmentsFrom, if_neg
          (by simp [isCut_of_isInert hblank hinert]), depthAfter_of_isInert hinert]
        simp only [hequals]
        rfl
      have hstart : trimStart (c :: cs) = trimStart cs := dropWhile_cons_of_pos hc
      have htrim : ∀ segment, trim (c :: segment) = trim segment := fun segment => by
        rw [trim, trimStart, dropWhile_cons_of_pos hc]
        rfl
      rw [hstart, ih, hcons]
      cases hsegments : segments separators cs with
      | nil => exact absurd hsegments (segmentsFrom_ne_nil _ _ _ _)
      | cons segment rest => exact congrArg (· :: rest.map trim) (htrim segment).symm

theorem map_trim_segments_trimEnd (hblank : ∀ c ∈ separators, isBlank c = false)
    (cs : List Char) :
    (segments separators (trimEnd cs)).map trim = (segments separators cs).map trim := by
  obtain ⟨blanks, hmarks, hblanks⟩ := marks_trimEnd cs
  have hinert : ∀ m ∈ blanks, m.isInert = true :=
    fun m hm => isInert_iff.2 (.inr (hblanks m hm))
  rcases eq_nil_or_concat (segments separators (trimEnd cs)) with hnil
    | ⟨done, last, hsegments⟩
  · exact absurd hnil (segmentsFrom_ne_nil _ _ _ _)
  · rw [concat_eq_append] at hsegments
    have happend := segmentsFrom_append hsegments blanks
    rw [segmentsFrom_inert hblank hinert, foldr_consSegment] at happend
    have hlast : trim (last ++ unmark blanks) = trim last :=
      trim_append_blanks (by simpa [unmark] using hblanks) last
    rw [← hmarks] at happend
    rw [hsegments, segments, happend, map_append, map_append, map_singleton,
      map_singleton, hlast]

theorem parts_trim (hblank : ∀ c ∈ separators, isBlank c = false) (cs : List Char) :
    parts separators (trim cs) = parts separators cs := by
  rw [parts, trim, map_trim_segments_trimEnd hblank,
    map_trim_segments_trimStart hblank, parts]

theorem dropGap_dropGap (cs : List Char) : dropGap (dropGap cs) = dropGap cs := by
  rw [dropGap, marks_dropGap, dropWhile_idempotent, dropGap]

theorem head?_isGap_of_dropGap (h : dropGap cs = cs) :
    (marks cs).head?.any Marked.isGap = false := by
  have hhead := head?_dropWhile_not Marked.isGap (marks cs)
  rw [← marks_dropGap, h] at hhead
  split at hhead
  · rename_i m hm
    rw [hm]
    exact hhead
  · rename_i hm
    rw [hm]
    rfl

theorem isBlank_of_dropGap {rest : List Char} (h : dropGap (c :: rest) = c :: rest) :
    isBlank c = false := by
  cases hc : isBlank c with
  | false => rfl
  | true =>
    obtain ⟨hquote, hslash⟩ := isQuote_of_isBlank hc
    have hhead := head?_isGap_of_dropGap h
    rw [marks_cons hquote hslash] at hhead
    simp [Marked.isGap, hc] at hhead

/-- A text becomes empty if it consists of gaps. -/
theorem tight_eq_nil_iff : tight cs = [] ↔ dropGap cs = [] := by
  rw [tight, trim, trimStart_singleSpaced]
  cases hdrop : dropGap cs with
  | nil => exact iff_of_true rfl rfl
  | cons c rest =>
    have hself : dropGap (c :: rest) = c :: rest := by rw [← hdrop, dropGap_dropGap]
    have hhead : (singleSpaced (c :: rest)).head? = some c := by
      rw [head?_singleSpaced, head?_isGap_of_dropGap hself]
      rfl
    obtain ⟨after, hafter⟩ := head?_eq_some_iff.1 hhead
    have hend : trimEnd (c :: after) = c :: trimEnd after :=
      trimEnd_append_cons (isBlank_of_dropGap hself) [] after
    rw [hafter, hend]
    exact iff_of_false (cons_ne_nil _ _) (cons_ne_nil _ _)

theorem dropGap_eq_nil_of_trim (h : trim cs = []) : dropGap cs = [] := by
  rw [← tight_eq_nil_iff, ← tight_trim, h]
  rfl

theorem filter_map_tight (texts : List (List Char)) :
    (texts.map tight).filter (· ≠ [])
      = (((texts.map trim).filter (· ≠ [])).map tight).filter (· ≠ []) := by
  induction texts with
  | nil => rfl
  | cons text texts ih =>
    rw [map_cons, map_cons, ← tight_trim, filter_cons, filter_cons, ih]
    by_cases htrim : trim text = []
    · have htight : tight [] = [] := rfl
      simp [htrim, htight]
    · simp [htrim, filter_cons]

/-- The parts of a text in any layout. A part of comments only is none. -/
theorem parts_tight (hblank : ∀ c ∈ separators, isBlank c = false)
    (hslash : '/' ∉ separators) (cs : List Char) :
    parts separators (tight cs) = ((parts separators cs).map tight).filter (· ≠ []) := by
  have hmap : ((segments separators cs).map singleSpaced).map trim
      = (segments separators cs).map tight :=
    map_map
  rw [tight, parts_trim hblank, parts, segments_singleSpaced hblank hslash, hmap,
    filter_map_tight, parts]

end Source

end TypedContent

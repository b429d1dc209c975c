import TypedContent.Proofs.Lists
import TypedContent.Proofs.Source.SpacedParts
import TypedContent.Schema.Declaration

/-!
# Layout of types

A field's type is read from its parts as they stand in the text. Of a part's
name only what follows the last point counts, and of its arguments only
those that the field keeps. A blank or a comment in one of these places
becomes part of what is read; anywhere else it is inert. A *tidy* type has
none in these places (`isTidyType`), and it declares the same field in any
layout (`field?_tight`).
-/

namespace TypedContent

open List Option

namespace Source

open Text

variable {closer : Char} {m : Marked}

/-! ## Ends -/

/-- A character that ends a text in any layout. The character `closer` does
if it belongs to the code. -/
def Marked.isEnd (closer : Char) (m : Marked) : Bool :=
  m.role != .comment && !isBlank m.char && (m.char != closer || m.role == .code)

theorem Marked.isEnd_iff :
    m.isEnd closer = true ↔ m.role ≠ .comment ∧ isBlank m.char = false
      ∧ (m.char = closer → m.role = .code) := by
  simp only [Marked.isEnd, Bool.and_eq_true, Bool.or_eq_true, bne_iff_ne, beq_iff_eq,
    Bool.not_eq_true', and_assoc, ← imp_iff_not_or]

theorem Marked.isGap_of_isEnd (h : m.isEnd closer = true) : m.isGap = false := by
  obtain ⟨hrole, hblank, -⟩ := Marked.isEnd_iff.1 h
  simp [Marked.isGap, hrole, hblank]

theorem Marked.eq_of_isEnd (h : m.isEnd closer = true) (hchar : m.char = closer) :
    m = ⟨.code, closer⟩ := by
  have hrole := (Marked.isEnd_iff.1 h).2.2 hchar
  rw [← hrole, ← hchar]

theorem spaced_append {more : List Marked} (h : more.head?.any Marked.isGap = false)
    (ms : List Marked) :
    spaced (ms ++ more) = spaced ms ++ spaced more := by
  cases more with
  | nil => rw [append_nil, spaced, spaced, condense, append_nil]
  | cons m more =>
    have hm : m.isGap = false := h
    rw [spaced, condense_append hm, ← condense_cons hm]
    rfl

theorem exists_marks_concat {cs : List Char} (hne : cs ≠ [])
    (h : (marks cs).getLast?.all (Marked.isEnd closer) = true) :
    ∃ before m, marks cs = before ++ [m] ∧ m.isEnd closer = true
      ∧ cs = unmark before ++ [m.char] := by
  have htext := unmark_marks cs
  rcases eq_nil_or_concat (marks cs) with hnil | ⟨before, m, hmarks⟩
  · rw [hnil] at htext
    exact absurd htext.symm hne
  · rw [concat_eq_append] at hmarks
    rw [hmarks, getLast?_append, getLast?_singleton, some_or, all_some] at h
    rw [hmarks, unmark_append] at htext
    exact ⟨before, m, hmarks, h, htext.symm⟩

theorem spaced_concat (h : m.isGap = false) (ms : List Marked) :
    spaced (ms ++ [m]) = spaced ms ++ [m] :=
  condense_append h ms []

theorem tight_of_isEnd {cs : List Char}
    (h : (marks cs).getLast?.all (Marked.isEnd closer) = true) :
    tight cs = singleSpaced (dropGap cs) := by
  rw [tight, trim, trimStart_singleSpaced, singleSpaced, marks_dropGap]
  by_cases hnil : cs = []
  · rw [hnil]
    rfl
  · obtain ⟨before, m, hmarks, hend, -⟩ := exists_marks_concat hnil h
    have hgap := Marked.isGap_of_isEnd hend
    obtain ⟨front, hfront⟩ :
        ∃ front, (before ++ [m]).dropWhile Marked.isGap = front ++ [m] := by
      rw [dropWhile_append]
      split
      · exact ⟨[], dropWhile_cons_of_neg (by simp [hgap])⟩
      · exact ⟨_, rfl⟩
    rw [hmarks, hfront, spaced_concat hgap, unmark_append]
    exact trimEnd_append_cons (Marked.isEnd_iff.1 hend).2.1 _ []

/-! ## Lists of literals -/

theorem IsGapless.tight_eq {cs : List Char} (h : IsGapless cs) : tight cs = trim cs := by
  rw [tight, h.singleSpaced_eq]

theorem trim_tight (cs : List Char) : trim (tight cs) = tight cs :=
  trim_trim _

theorem trim_of_mem_parts {separators cs part : List Char}
    (h : part ∈ parts separators cs) :
    trim part = part := by
  obtain ⟨segment, -, rfl⟩ := List.mem_map.1 (mem_filter.1 h).1
  exact trim_trim segment

/-- A part without gaps is the same in any layout of the text around it. -/
theorem parts_singleSpaced {separators cs : List Char}
    (hblank : ∀ c ∈ separators, isBlank c = false) (hslash : '/' ∉ separators)
    (h : ∀ part ∈ parts separators cs, IsGapless part) :
    parts separators (singleSpaced cs) = parts separators cs := by
  have htight : (parts separators cs).map tight = parts separators cs := by
    refine map_congr_left (fun part hpart => ?_) |>.trans (List.map_id _)
    rw [(h _ hpart).tight_eq, trim_of_mem_parts hpart, id]
  have hne : ∀ part ∈ parts separators cs, part ≠ [] := fun part hpart => by
    simpa using (mem_filter.1 hpart).2
  rw [← parts_trim hblank, ← tight, parts_tight hblank hslash, htight, filter_eq_self]
  simpa using hne

/-- A list whose items are free of gaps, without a gap at its ends. -/
def isTidyList (cs : List Char) : Bool :=
  dropGap (trim cs) == trim cs && (marks (trim cs)).getLast?.all (Marked.isEnd ']')
    && (parts [',', '|'] (dropListBrackets (trim cs))).all fun item =>
      decide (IsGapless item)

theorem dropListBrackets_eq_self {cs : List Char}
    (h : ∀ inner, cs ≠ '[' :: inner ++ [']']) :
    dropListBrackets cs = cs := by
  cases hdrop : ['['].isPrefixOf? cs with
  | none => rw [dropListBrackets, hdrop]; rfl
  | some rest =>
    have hnone : [']'].isSuffixOf? rest = none := by
      rw [isPrefixOf?_eq_some_iff_append_eq] at hdrop
      refine isSuffixOf?_singleton_eq_none fun hlast => ?_
      obtain ⟨inner, rfl⟩ := getLast?_eq_some_iff.1 hlast
      exact h inner hdrop.symm
    rw [dropListBrackets, hdrop, bind_eq_bind, bind_some, hnone]
    rfl

/-- Where a text starts and ends with a token, its brackets are those of its
single-spaced form. -/
theorem dropListBrackets_singleSpaced {cs : List Char} (hstart : dropGap cs = cs)
    (hend : (marks cs).getLast?.all (Marked.isEnd ']') = true) :
    dropListBrackets (singleSpaced cs) = singleSpaced (dropListBrackets cs) := by
  by_cases hnil : cs = []
  · rw [hnil]
    rfl
  obtain ⟨before, m, hmarks, hm, hcs⟩ := exists_marks_concat hnil hend
  have hspaced : singleSpaced cs = unmark (spaced before) ++ [m.char] := by
    rw [singleSpaced, hmarks, spaced_concat (Marked.isGap_of_isEnd hm), unmark_append]
    rfl
  by_cases hlist : ∃ inner, cs = '[' :: inner ++ [']']
  · obtain ⟨inner, rfl⟩ := hlist
    obtain ⟨hbefore, hchar⟩ := append_inj' hcs rfl
    have hbracket : m = ⟨.code, ']'⟩ :=
      Marked.eq_of_isEnd hm (head_eq_of_cons_eq hchar).symm
    have hlexed : Lexed before := by
      have hlexed := lexed_marks ('[' :: inner ++ [']'])
      rw [hmarks, hbracket] at hlexed
      exact (hlexed.split (by decide)).1
    rw [hspaced, ← hlexed.singleSpaced_unmark, ← hbefore, ← hchar, singleSpaced_cons
      rfl (by decide) rfl, dropListBrackets_enclosed, dropListBrackets_enclosed]
  · have hself : dropListBrackets cs = cs :=
      dropListBrackets_eq_self fun inner heq => hlist ⟨inner, heq⟩
    rw [hself]
    refine dropListBrackets_eq_self fun inner heq => hlist ?_
    have hhead : cs.head? = some '[' := by
      have hhead := head?_singleSpaced cs
      rw [head?_isGap_of_dropGap hstart, heq] at hhead
      exact hhead.symm
    obtain ⟨rest, rfl⟩ := head?_eq_some_iff.1 hhead
    obtain ⟨-, hchar⟩ := append_inj' (hspaced.symm.trans heq) rfl
    cases hchars : unmark before with
    | nil =>
      rw [hchars, hchar] at hcs
      cases hcs
    | cons c inner =>
      rw [hchars, hchar] at hcs
      obtain ⟨rfl, hrest⟩ := List.cons.inj hcs
      exact ⟨inner, congrArg _ hrest⟩

theorem stringList_tight {cs : List Char} (h : isTidyList cs = true) :
    stringList (tight cs) = stringList cs := by
  simp only [isTidyList, Bool.and_eq_true, beq_iff_eq, List.all_eq_true,
    decide_eq_true_eq] at h
  obtain ⟨⟨hstart, hend⟩, hitems⟩ := h
  rw [stringList, trim_tight, ← tight_trim, tight_of_isEnd hend, hstart,
    dropListBrackets_singleSpaced hstart hend,
    parts_singleSpaced (by decide) (by decide) hitems, stringList]

/-! ## Names of parts -/

/-- The marked text of a part: a path that ends in `name`, blanks, and what
follows from the type arguments on. -/
inductive IsNamed : List Marked → List Char → List Marked → Prop where
  | intro {front blanks rest : List Marked} {name : List Char}
      (hfront : ∀ m ∈ front, m.char ≠ '<')
      (hpoint : ∀ m ∈ front.getLast?, m.char = '.' ∧ m.isGap = false) (hne : name ≠ [])
      (hname : ∀ c ∈ name, isBlank c = false ∧ c ≠ '.' ∧ c ≠ '<')
      (hblanks : ∀ m ∈ blanks, m.role = .code ∧ isBlank m.char = true)
      (hrest : ∀ m ∈ rest.head?, m = ⟨.code, '<'⟩) :
      IsNamed (front ++ (name.map (Marked.mk .code) ++ (blanks ++ rest))) name rest

variable {ms rest : List Marked} {cs name : List Char}

theorem isGap_of_mem_name (h : ∀ c ∈ name, isBlank c = false ∧ c ≠ '.' ∧ c ≠ '<') :
    ∀ m ∈ name.map (Marked.mk .code), m.isGap = false := by
  intro m hm
  obtain ⟨c, hc, rfl⟩ := List.mem_map.1 hm
  simp [Marked.isGap, (h c hc).1]

theorem char_of_mem_spaced (h : m ∈ spaced ms) : m.char = ' ' ∨ m ∈ ms := by
  rcases mem_condense h with rfl | ⟨h, -⟩
  · exact .inl rfl
  · exact .inr h

theorem IsNamed.spaced (h : IsNamed ms name rest) :
    IsNamed (Source.spaced ms) name (Source.spaced rest) := by
  cases h with
  | @intro front blanks _ _ hfront hpoint hne hname hblanks hrest =>
    have hsolid := isGap_of_mem_name hname
    have hhead : (name.map (Marked.mk .code) ++ (blanks ++ rest)).head?.any
        Marked.isGap = false := by
      obtain ⟨c, cs, rfl⟩ := exists_cons_of_ne_nil hne
      exact hsolid _ mem_cons_self
    have hhead' : rest.head?.any Marked.isGap = false := by
      rw [Option.any_eq_false]
      intro m hm
      rw [hrest m hm]
      decide
    rw [spaced_append hhead, Source.spaced.eq_1 (name.map _ ++ _),
      condense_solid_append hsolid, ← Source.spaced, spaced_append hhead']
    refine .intro (fun m hm => ?_) (fun m hm => ?_) hne hname (fun m hm => ?_)
      (fun m hm => ?_)
    · rcases char_of_mem_spaced hm with hchar | hm
      · rw [hchar]
        decide
      · exact hfront m hm
    · rcases eq_nil_or_concat front with rfl | ⟨path, point, rfl⟩
      · cases hm
      · rw [concat_eq_append] at hm hpoint
        have hlast := hpoint point (by simp)
        rw [spaced_concat hlast.2, getLast?_append, getLast?_singleton] at hm
        exact mem_some.1 hm ▸ hlast
    · rcases mem_condense hm with rfl | ⟨hm, -⟩
      · exact ⟨rfl, rfl⟩
      · exact hblanks m hm
    · cases rest with
      | nil => cases hm
      | cons angle inside =>
        obtain rfl := hrest angle rfl
        exact (mem_some.1 hm).symm

theorem IsNamed.dropWhile (h : IsNamed ms name rest) :
    IsNamed (ms.dropWhile Marked.isGap) name rest := by
  cases h with
  | @intro front blanks _ _ hfront hpoint hne hname hblanks hrest =>
    rw [dropWhile_append]
    split
    · obtain ⟨c, cs, rfl⟩ := exists_cons_of_ne_nil hne
      have hc : Marked.isGap ⟨.code, c⟩ = false := isGap_of_mem_name hname _ mem_cons_self
      rw [map_cons, cons_append, dropWhile_cons_of_neg (by simp [hc])]
      exact .intro (fun m hm => absurd hm not_mem_nil)
        (fun m hm => absurd hm (by simp)) hne hname hblanks hrest
    · obtain ⟨gap, hgap⟩ := dropWhile_suffix (l := front) Marked.isGap
      refine .intro (fun m hm => hfront m ?_)
        (fun m hm => hpoint m ?_) hne hname hblanks hrest
      · rw [← hgap]
        exact mem_append_right gap hm
      · rw [← hgap, getLast?_append, mem_def.1 hm]
        rfl

theorem afterLast_path {front blanks : List Char}
    (hpoint : ∀ c ∈ front.getLast?, c = '.') (hne : name ≠ [])
    (hname : ∀ c ∈ name, isBlank c = false ∧ c ≠ '.' ∧ c ≠ '<')
    (hblanks : ∀ c ∈ blanks, isBlank c = true) :
    afterLast '.' (trim (front ++ (name ++ blanks))) = name := by
  have hsolid : isSolid name = true := isSolid_of_forall hne fun c hc => (hname c hc).1
  have hnone : '.' ∉ name := fun h => (hname '.' h).2.1 rfl
  rw [← append_assoc, trim_append_blanks hblanks]
  rcases eq_nil_or_concat front with rfl | ⟨path, point, rfl⟩
  · rw [nil_append, trim_of_isSolid hsolid, afterLast, cutAtLast?_eq_none hnone]
  · rw [concat_eq_append] at hpoint ⊢
    obtain rfl : point = '.' := hpoint point (by simp)
    rw [append_assoc, singleton_append, trim_append_cons rfl, trimEnd_of_isSolid hsolid,
      afterLast_append hnone]

/-- The type arguments in what follows a part's name. -/
def argumentsIn? : List Marked → Option (List (List Char))
  | [] => some []
  | _ :: inside => (['>'].isSuffixOf? (unmark inside)).map (parts [','])

/-- A part is read as its last name and its arguments. -/
theorem IsNamed.genericParts?_eq (h : IsNamed (marks cs) name rest)
    (htrim : trim cs = cs) :
    (genericParts? cs).map (Prod.map (afterLast '.') id)
      = (argumentsIn? rest).map (Prod.mk name) := by
  have hcs := unmark_marks cs
  generalize marks cs = ms at h hcs
  cases h with
  | @intro front blanks _ _ hfront hpoint hne hname hblanks hrest =>
    have hunmark : unmark (name.map (Marked.mk .code)) = name := by
      simp [unmark, Function.comp_def]
    rw [unmark_append, unmark_append, unmark_append, hunmark] at hcs
    have hangle : '<' ∉ unmark front ++ (name ++ unmark blanks) := by
      simp only [mem_append, not_or, unmark, List.mem_map, not_exists, not_and]
      refine ⟨hfront, fun h => (hname _ h).2.2 rfl, fun m hm hchar => ?_⟩
      have hblank := (hblanks m hm).2
      rw [hchar] at hblank
      cases hblank
    have hafter :
        afterLast '.' (trim (unmark front ++ (name ++ unmark blanks))) = name := by
      refine afterLast_path (fun c hc => ?_) hne hname (fun c hc => ?_)
      · rw [unmark, getLast?_map] at hc
        obtain ⟨m, hm, rfl⟩ := map_eq_some_iff.1 hc
        exact (hpoint m hm).1
      · obtain ⟨m, hm, rfl⟩ := List.mem_map.1 hc
        exact (hblanks m hm).2
    rw [genericParts?, htrim]
    cases rest with
    | nil =>
      have hpath : cs = unmark front ++ (name ++ unmark blanks) := by
        rw [← hcs]; simp [unmark]
      rw [← hpath, htrim] at hafter
      rw [← hpath] at hangle
      simp [cutAt?_eq_none hangle, hafter, argumentsIn?]
    | cons angle inside =>
      obtain rfl := hrest angle rfl
      have hpath :
          cs = (unmark front ++ (name ++ unmark blanks)) ++ '<' :: unmark inside := by
        rw [← hcs]; simp [unmark]
      rw [hpath, cutAt?_append hangle]
      simp only [argumentsIn?, Option.map_map, Function.comp_def, Prod.map, hafter, id]

/-! ## Tidy parts -/

/-- A part whose last name stands in the code, with a point right before it
or nothing, and that does not end in a comment. -/
def isTidyPart (cs : List Char) : Bool :=
  let path := ((marks cs).takeWhile (·.char != '<')).rdropWhile fun m =>
    m.role == .code && isBlank m.char
  let name := path.rtakeWhile (·.char != '.')
  name != [] && name.all (fun m => m.role == .code && !isBlank m.char)
    && (path.rdropWhile (·.char != '.')).getLast?.all (·.role != .comment)
    && ((marks cs).dropWhile (·.char != '<')).head?.all (·.role == .code)
    && (marks cs).getLast?.all (Marked.isEnd '>')

theorem isEnd_of_isTidyPart (h : isTidyPart cs = true) :
    (marks cs).getLast?.all (Marked.isEnd '>') = true := by
  simp only [isTidyPart, Bool.and_eq_true] at h
  exact h.2

theorem exists_isNamed (h : isTidyPart cs = true) :
    ∃ name rest, IsNamed (marks cs) name rest := by
  simp only [isTidyPart, Bool.and_eq_true, bne_iff_ne, List.all_eq_true,
    Bool.not_eq_true', beq_iff_eq] at h
  obtain ⟨⟨⟨⟨hne, hname⟩, hpoint⟩, hrest⟩, -⟩ := h
  generalize marks cs = ms at *
  -- the text is cut at the first angle bracket, then behind its last
  -- character that is not blank, then at a point
  have hangle : ms.takeWhile (·.char != '<') ++ ms.dropWhile (·.char != '<') = ms :=
    takeWhile_append_dropWhile
  have hbefore : ∀ m ∈ ms.takeWhile (·.char != '<'), m.char ≠ '<' := fun m hm => by
    simpa using mem_takeWhile_imp hm
  generalize ms.takeWhile (·.char != '<') = before at *
  have hblank := rdropWhile_append_rtakeWhile
    (p := fun m : Marked => m.role == .code && isBlank m.char)
    (l := before)
  generalize before.rdropWhile (fun m => m.role == .code && isBlank m.char) = path at *
  have hlast :=
    rdropWhile_append_rtakeWhile (p := fun m : Marked => m.char != '.') (l := path)
  have hcode : (unmark (path.rtakeWhile (·.char != '.'))).map (Marked.mk .code)
      = path.rtakeWhile (·.char != '.') := by
    rw [unmark, List.map_map]
    refine (map_congr_left fun m hm => ?_).trans (List.map_id _)
    rw [Function.comp_apply, ← (hname m hm).1, id]
  rw [← hangle, ← hblank, ← hlast, append_assoc, append_assoc, ← hcode]
  refine ⟨_, _, .intro (fun m hm => ?_) (fun m hm => ?_) (by simpa [unmark] using hne)
    (fun c hc => ?_)
    (fun m hm => ?_) (fun m hm => ?_)⟩
  · refine hbefore m ?_
    rw [← hblank]
    exact mem_append_left _ ((List.rdropWhile_prefix _ path).subset hm)
  · rw [mem_def.1 hm, all_some, bne_iff_ne] at hpoint
    obtain ⟨hnil, rfl⟩ := mem_getLast?_eq_getLast hm
    have hchar : (List.getLast _ hnil).char = '.' := by
      simpa using rdropWhile_last_not _ path hnil
    have hsolid : isBlank '.' = false := rfl
    exact ⟨hchar, by simp [Marked.isGap, hchar, hsolid, hpoint]⟩
  · obtain ⟨m, hm, rfl⟩ := List.mem_map.1 hc
    have hmem : m ∈ before := by
      rw [← hblank]
      exact mem_append_left _ ((rtakeWhile_suffix _ path).subset hm)
    exact ⟨(hname m hm).2, by simpa using mem_rtakeWhile_imp hm, hbefore m hmem⟩
  · simpa using mem_rtakeWhile_imp hm
  · have hhead := head?_dropWhile_not (fun m : Marked => m.char != '<') ms
    rw [mem_def.1 hm] at hhead
    rw [mem_def.1 hm, all_some, beq_iff_eq] at hrest
    obtain ⟨role, c⟩ := m
    obtain rfl : role = .code := hrest
    obtain rfl : c = '<' := by simpa using hhead
    rfl

theorem dropGap_ne_nil_of_isTidyPart (h : isTidyPart cs = true) : dropGap cs ≠ [] := by
  obtain ⟨name, rest, hnamed⟩ := exists_isNamed h
  have hdrop := hnamed.dropWhile
  generalize hms : (marks cs).dropWhile Marked.isGap = ms at hdrop
  rw [dropGap, hms]
  cases hdrop with
  | intro _ _ hne _ _ _ => simp [unmark, hne]

/-- Single spacing changes the layout of the arguments, if none of them
consists of gaps. -/
theorem IsNamed.argumentsIn?_spaced (h : IsNamed (marks cs) name rest)
    (hend : (marks cs).getLast?.all (Marked.isEnd '>') = true)
    (hargs : ∀ args ∈ argumentsIn? rest, ∀ arg ∈ args, dropGap arg ≠ []) :
    argumentsIn? (Source.spaced rest) = (argumentsIn? rest).map (List.map tight) := by
  have hlexed := lexed_marks cs
  generalize marks cs = ms at h hend hlexed
  cases h with
  | @intro front blanks _ _ _ _ _ _ _ hrest =>
    cases rest with
    | nil => rfl
    | cons angle inside =>
      obtain rfl := hrest angle rfl
      rw [← append_assoc, ← append_assoc] at hlexed
      have hinside : Lexed inside := (hlexed.split (by decide)).2
      have hcons : Source.spaced (⟨.code, '<'⟩ :: inside)
          = ⟨.code, '<'⟩ :: Source.spaced inside := condense_cons rfl _
      rw [hcons]
      rcases eq_nil_or_concat inside with rfl | ⟨args, m, rfl⟩
      · rfl
      · rw [concat_eq_append] at hend hinside hargs ⊢
        rw [← cons_append, ← append_assoc, ← append_assoc, ← append_assoc,
          getLast?_append, getLast?_singleton] at hend
        have hm : m.isEnd '>' = true := hend
        rw [spaced_concat (Marked.isGap_of_isEnd hm)]
        simp only [argumentsIn?, unmark_append] at hargs ⊢
        by_cases hchar : m.char = '>'
        · obtain rfl := Marked.eq_of_isEnd hm hchar
          have hsuffix : ∀ text : List Char,
              ['>'].isSuffixOf? (text ++ ['>']) = some text := fun text =>
            isSuffixOf?_eq_some_iff_append_eq.2 rfl
          have hunmark : unmark [⟨.code, '>'⟩] = ['>'] := rfl
          simp only [hunmark, hsuffix, map_some] at hargs ⊢
          have hlexed' : Lexed args := (hinside.split (by decide)).1
          rw [← hlexed'.singleSpaced_unmark, ← parts_trim (by decide), ← tight,
            parts_tight (by decide) (by decide), filter_eq_self.2]
          intro arg harg
          obtain ⟨arg, hmem, rfl⟩ := List.mem_map.1 harg
          simpa [tight_eq_nil_iff] using hargs _ rfl arg hmem
        · have hsuffix : ∀ text : List Char,
              ['>'].isSuffixOf? (text ++ unmark [m]) = none := fun text =>
            isSuffixOf?_singleton_eq_none (by simpa [unmark] using hchar)
          rw [hsuffix, hsuffix]
          rfl

end Source

namespace Declared

open Source Text

/-- The part with its arguments tightened. -/
def TypePart.tight (part : TypePart) : TypePart :=
  { part with args := part.args.map Source.tight }

theorem typePart?_eq (cs : List Char) :
    typePart? cs = ((genericParts? cs).map (Prod.map (afterLast '.') id)).map
      fun (name, args) =>
      ⟨String.ofList name, args⟩ := by
  rw [typePart?, Option.map_map]
  rfl

theorem typePart?_tight {cs : List Char} (h : isTidyPart cs = true) (htrim : trim cs = cs)
    (hargs : ∀ part ∈ typePart? cs, ∀ arg ∈ part.args, dropGap arg ≠ []) :
    typePart? (tight cs) = (typePart? cs).map TypePart.tight := by
  obtain ⟨name, rest, hnamed⟩ := exists_isNamed h
  have hend := isEnd_of_isTidyPart h
  have hmarks : marks (tight cs) = spaced ((marks cs).dropWhile Marked.isGap) := by
    rw [tight_of_isEnd hend, marks_singleSpaced, marks_dropGap]
  have hread := hnamed.genericParts?_eq htrim
  have hread' := (hmarks ▸ hnamed.dropWhile.spaced).genericParts?_eq (trim_tight cs)
  rw [typePart?_eq, hread] at hargs
  rw [typePart?_eq, typePart?_eq, hread, hread', hnamed.argumentsIn?_spaced hend]
  · cases argumentsIn? rest <;> rfl
  · intro args hsome arg harg
    refine hargs ⟨String.ofList name, args⟩ ?_ arg harg
    rw [hsome]
    rfl

/-! ## Tidy types -/

/-- A part with arguments that are not comments only, of which those that a
field keeps are free of gaps. -/
def TypePart.isTidy (part : TypePart) : Bool :=
  part.args.all (dropGap · != []) &&
    match part.name with
    | "Relation" | "Component" => part.args.all fun arg => decide (IsGapless arg)
    | "DynamicZone" | "Enumeration" => part.args.head?.all isTidyList
    | "Media" => part.args[1]?.all fun arg => decide (IsGapless arg)
    | _ => true

theorem TypePart.dropGap_ne_nil {part : TypePart} (h : part.isTidy = true) :
    ∀ arg ∈ part.args, dropGap arg ≠ [] := by
  simp only [TypePart.isTidy, Bool.and_eq_true, List.all_eq_true, bne_iff_ne] at h
  exact h.1

theorem unquoted_tight {arg : List Char} (h : IsGapless arg) :
    unquoted (tight arg) = unquoted arg := by
  rw [h.tight_eq, unquoted, unquote, trim_trim, unquoted, unquote]

theorem isTrue_tight {arg : Option (List Char)} (h : ∀ cs ∈ arg, IsGapless cs) :
    isTrue (arg.map tight) = isTrue arg := by
  cases arg with
  | none => rfl
  | some cs =>
    rw [map_some, (h cs rfl).tight_eq, isTrue, any_some, trim_trim, isTrue, any_some]

theorem withArguments?_tight {part : TypePart} (h : part.isTidy = true)
    (field : DeclaredField) :
    withArguments? field part.tight = withArguments? field part := by
  obtain ⟨name, args⟩ := part
  simp only [TypePart.isTidy, Bool.and_eq_true, TypePart.tight] at h ⊢
  replace h := h.2
  unfold withArguments?
  dsimp only
  split <;> simp only [List.all_eq_true, Option.all_eq_true, decide_eq_true_eq] at h ⊢
  · have hargs : ∀ arg ∈ args, unquoted (tight arg) = unquoted arg :=
      fun arg harg => unquoted_tight (h arg harg)
    rcases args with _ | ⟨first, _ | ⟨second, _ | ⟨third, _ | ⟨fourth, rest⟩⟩⟩⟩
    · rfl
    · simp [hargs first]
    · simp [hargs first, hargs second]
    · simp [hargs second, hargs third]
    · rfl
  · have hrepeat : isTrue (args.map tight)[1]? = isTrue args[1]? := by
      rw [getElem?_map]
      exact isTrue_tight fun arg harg => h arg (mem_of_getElem? harg)
    rw [hrepeat, head?_map, Option.map_map]
    refine Option.map_congr fun arg harg => ?_
    rw [Function.comp_apply, unquoted_tight (h arg (mem_of_mem_head? harg))]
  · rw [head?_map, Option.map_map]
    refine Option.map_congr fun arg harg => ?_
    rw [Function.comp_apply, stringList_tight (h arg harg)]
  · rw [getElem?_map, isTrue_tight h]
  · rw [head?_map, Option.map_map]
    refine Option.map_congr fun arg harg => ?_
    rw [Function.comp_apply, stringList_tight (h arg harg)]

/-- A type of tidy parts. -/
def isTidyType (type : List Char) : Bool :=
  (parts ['&'] type).all fun part =>
    isTidyPart part && (typePart? part).all TypePart.isTidy

theorem mem_of_basePart? {parts : List TypePart} {base : TypePart}
    (h : basePart? parts = some base) :
    base ∈ parts := by
  rcases or_eq_some_iff.1 h with h | ⟨-, h⟩
  · exact mem_of_find?_eq_some h
  · exact mem_of_find?_eq_some h

theorem basePart?_tight (parts : List TypePart) :
    basePart? (parts.map TypePart.tight) = (basePart? parts).map TypePart.tight := by
  rw [basePart?, find?_map, find?_map, ← map_or]
  rfl

theorem field?_eq (name : String) (type : List Char) :
    field? name type = ((parts ['&'] type).mapM typePart?).bind fun parts =>
      (basePart? parts).bind fun base =>
      withArguments?
        { name
          kind := String.ofList (base.name.toList.map Char.toLower)
          isRequired := parts.any (·.name == "Required")
          isPrivate := parts.any (·.name == "Private") } base := rfl

/-- A tidy type declares the same field in any layout. -/
theorem field?_tight {type : List Char} (h : isTidyType type = true) (name : String) :
    field? name (tight type) = field? name type := by
  simp only [isTidyType, List.all_eq_true, Bool.and_eq_true, Option.all_eq_true] at h
  have hparts : parts ['&'] (tight type) = (parts ['&'] type).map tight := by
    rw [parts_tight (by decide) (by decide), filter_eq_self.2]
    intro part hpart
    obtain ⟨part, hmem, rfl⟩ := List.mem_map.1 hpart
    simpa [tight_eq_nil_iff] using dropGap_ne_nil_of_isTidyPart (h part hmem).1
  have htypes : ((parts ['&'] type).map tight).mapM typePart?
      = ((parts ['&'] type).mapM typePart?).map (List.map TypePart.tight) :=
    mapM_map_eq_map fun cs hcs => typePart?_tight (h cs hcs).1
      (trim_of_mem_parts hcs) fun part hpart =>
      TypePart.dropGap_ne_nil ((h cs hcs).2 part hpart)
  rw [field?_eq, field?_eq, hparts, htypes]
  cases hread : (parts ['&'] type).mapM typePart? with
  | none => rfl
  | some read =>
    rw [map_some, bind_some, bind_some, basePart?_tight]
    cases hbase : basePart? read with
    | none => rfl
    | some base =>
      obtain ⟨cs, hcs, hpart⟩ := exists_of_mem_mapM hread (mem_of_basePart? hbase)
      rw [map_some, bind_some, bind_some, withArguments?_tight ((h cs hcs).2 base hpart)]
      simp only [List.any_map, Function.comp_def, TypePart.tight]

end Declared

end TypedContent

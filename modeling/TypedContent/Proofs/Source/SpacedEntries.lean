import TypedContent.Proofs.Source.SpacedParts

/-!
# Layout of entries

An entry is read from the left, and not everywhere does its reading step
over gaps: a comment behind the key hides the colon, a blank in a key is a
part of it, and only a space is expected behind `readonly`. Of an entry that
is *tidy*, none of this is true, and it may be single-spaced before it is
read (`member?_singleSpaced`).
-/

namespace TypedContent

namespace Source

open List Text

variable {quote c : Char}
  {body rest text word entry key name value cs : List Char} {isOptional : Bool}

/-! ## Plain text -/

/-- A text that holds neither a literal nor a comment. -/
def isCode (cs : List Char) : Bool :=
  cs.all fun c => !isQuote c && c != '/'

theorem isCode_iff : isCode cs = true ↔ ∀ c ∈ cs, isQuote c = false ∧ c ≠ '/' := by
  simp [isCode]

theorem marks_append_of_isCode (h : isCode cs = true) (rest : List Char) :
    marks (cs ++ rest) = cs.map (Marked.mk .code) ++ marks rest := by
  rw [isCode_iff] at h
  induction cs with
  | nil => rfl
  | cons c cs ih =>
    rw [forall_mem_cons] at h
    rw [cons_append, marks_cons h.1.1 h.1.2, ih h.2]
    rfl

theorem spaced_map_code (cs : List Char) :
    spaced (cs.map (Marked.mk .code)) = (condensed cs).map (Marked.mk .code) :=
  condense_map (fun c => by simp [Marked.isGap]) cs

theorem isBlank_of_mem_condensed (h : ∀ c ∈ cs, isBlank c = true) :
    ∀ c ∈ condensed cs, isBlank c = true := by
  intro c hc
  rcases mem_condense hc with rfl | ⟨hmem, -⟩
  · rfl
  · exact h c hmem

theorem notMem_condensed (h : c ∉ cs) (hspace : c ≠ ' ') : c ∉ condensed cs := by
  intro hc
  rcases mem_condense hc with rfl | ⟨hmem, -⟩
  · exact hspace rfl
  · exact h hmem

theorem condensed_of_forall (h : ∀ c ∈ cs, isBlank c = false) : condensed cs = cs :=
  condense_of_forall h

theorem isBlank_getLast?_trimEnd (h : (trimEnd cs).getLast? = some c) :
    isBlank c = false := by
  rw [trimEnd, getLast?_reverse] at h
  obtain ⟨rest, hrest⟩ := head?_eq_some_iff.1 h
  have hne : cs.reverse.dropWhile isBlank ≠ [] := by
    rw [hrest]
    exact cons_ne_nil c rest
  have hhead := head_dropWhile_not isBlank hne
  simpa only [hrest, head_cons] using hhead

theorem trimEnd_condensed (cs : List Char) :
    trimEnd (condensed cs) = condensed (trimEnd cs) := by
  obtain ⟨blanks, hcs, hblank⟩ := exists_trimEnd_append cs
  rcases eq_nil_or_concat (trimEnd cs) with hnil | ⟨front, c, hfront⟩
  · rw [hnil, nil_append] at hcs
    rw [hnil, hcs]
    exact trimEnd_eq_nil (isBlank_of_mem_condensed hblank)
  · rw [concat_eq_append] at hfront
    have hc : isBlank c = false := isBlank_getLast?_trimEnd (hfront ▸ getLast?_concat)
    have hafter : trimEnd (condensed blanks) = [] :=
      trimEnd_eq_nil (isBlank_of_mem_condensed hblank)
    have hleft : condensed cs = condensed front ++ c :: condensed blanks := by
      conv_lhs => rw [hcs, hfront, append_assoc, singleton_append]
      exact condense_append hc front blanks
    have hright : condensed (trimEnd cs) = condensed front ++ [c] := by
      rw [hfront]
      exact condense_append hc front []
    rw [hleft, hright, trimEnd_append_cons hc, hafter]

theorem trim_condensed (cs : List Char) : trim (condensed cs) = condensed (trim cs) := by
  rw [trim, trimStart, condensed, dropWhile_condense rfl, ← condensed,
    trimEnd_condensed, trim, trimStart]

/-- Code up to a character that is no blank. -/
theorem singleSpaced_append (h : isCode cs = true) (hquote : isQuote c = false)
    (hslash : c ≠ '/') (hblank : isBlank c = false) (rest : List Char) :
    singleSpaced (cs ++ c :: rest) = condensed cs ++ c :: singleSpaced rest := by
  have hgap : Marked.isGap ⟨.code, c⟩ = false := by simp [Marked.isGap, hblank]
  rw [singleSpaced, marks_append_of_isCode h, marks_cons hquote hslash, spaced,
    condense_append hgap, ← spaced, ← spaced, spaced_map_code, unmark_append,
    unmark, map_map]
  exact congrArg (· ++ _) (map_id _)

/-! ## Keys -/

theorem mark_literalRest (quote : Char) (cs : List Char) :
    mark (.literal quote) cs
      = (literalRest quote cs).1.map (Marked.mk .literal)
        ++ marks (literalRest quote cs).2 := by
  fun_induction literalRest quote cs with
  | case1 => rfl
  | case2 c cs body rest hrest ih =>
    rw [hrest] at ih
    rw [mark, ih]
    rfl
  | case3 cs hescape =>
    rw [mark]
    · simp [marks]
    · exact hescape
  | case4 c cs hescape hc body rest hrest ih =>
    rw [hrest] at ih
    rw [mark]
    · rw [if_neg hc, ih]
      rfl
    · exact hescape

/-- A quoted text in front of another. -/
theorem marks_quoted (hquote : isQuote quote = true)
    (hbody : IsClosedLiteral quote body) (rest : List Char) :
    marks (quote :: body ++ rest) = (quote :: body).map (Marked.mk .literal)
      ++ marks rest := by
  have hslash : quote ≠ '/' := by
    rintro rfl
    cases hquote
  have hopen : marks (quote :: (body ++ rest))
      = ⟨.literal, quote⟩ :: mark (.literal quote) (body ++ rest) := by
    rw [marks, mark]
    · rw [if_pos hquote]
    · exact fun _ h => absurd h hslash
    · exact fun _ h => absurd h hslash
  rw [cons_append, hopen, mark_literalRest, hbody.rest]
  rfl

theorem singleSpaced_quoted (hquote : isQuote quote = true)
    (hbody : IsClosedLiteral quote body) (rest : List Char) :
    singleSpaced (quote :: body ++ rest) = quote :: body ++ singleSpaced rest := by
  have hliteral : ∀ m ∈ (quote :: body).map (Marked.mk .literal), m.isGap = false := by
    intro m hm
    obtain ⟨c, -, rfl⟩ := mem_map.1 hm
    rfl
  rw [singleSpaced, marks_quoted hquote hbody, spaced,
    condense_solid_append hliteral, ← spaced, unmark_append, unmark, map_map]
  exact congrArg (· ++ _) (map_id _)

theorem mem_trim (hc : c ∈ cs) (hblank : isBlank c = false) : c ∈ trim cs := by
  obtain ⟨before, after, rfl⟩ := append_of_mem hc
  rw [trim_append_cons hblank]
  exact mem_append_right _ mem_cons_self

theorem isCode_trim_iff : isCode (trim cs) = true ↔ isCode cs = true := by
  rw [isCode_iff, isCode_iff]
  constructor
  · intro h c hc
    cases hblank : isBlank c with
    | true => exact isQuote_of_isBlank hblank
    | false => exact h c (mem_trim hc hblank)
  · intro h c hc
    have hstart : c ∈ trimStart cs :=
      mem_reverse.1 ((dropWhile_suffix _).subset (mem_reverse.1 hc))
    exact h c ((dropWhile_suffix _).subset hstart)

theorem startsKeyQuote_of_isCode (h : isCode cs = true) : startsKeyQuote cs = false := by
  cases cs with
  | nil => rfl
  | cons c cs =>
    have hc := (isCode_iff.1 h c mem_cons_self).1
    cases hquote : isKeyQuote c with
    | false => exact hquote
    | true =>
      rw [(isKeyQuote_cases hquote).2.2] at hc
      cases hc

theorem isCode_condensed (h : isCode cs = true) : isCode (condensed cs) = true := by
  rw [isCode_iff] at h ⊢
  intro c hc
  rcases mem_condense hc with rfl | ⟨hmem, -⟩
  · decide
  · exact h c hmem

/-- A name without blanks is the same however far its question mark is from
it. -/
theorem plainName_condensed (h : ∀ c ∈ plainName key, isBlank c = false) :
    plainName (condensed key) = plainName key
      ∧ isMarked (condensed key) = isMarked key := by
  unfold plainName isMarked at *
  rw [trim_condensed]
  cases hmark : ['?'].isSuffixOf? (trim key) with
  | none =>
    rw [hmark] at h
    have hname : condensed (trim key) = trim key := condensed_of_forall h
    rw [hname, hmark]
    exact ⟨rfl, rfl⟩
  | some name =>
    rw [hmark] at h
    rw [isSuffixOf?_eq_some_iff_append_eq] at hmark
    have hkey : condensed (trim key) = condensed name ++ ['?'] := by
      rw [← hmark]
      exact condense_append rfl name []
    have hsuffix : ['?'].isSuffixOf? (condensed name ++ ['?']) = some (condensed name) :=
      isSuffixOf?_eq_some_iff_append_eq.2 rfl
    have hname : condensed (trim name) = trim name := condensed_of_forall h
    rw [hkey, hsuffix, Option.map_some, Option.getD_some, trim_condensed, hname]
    exact ⟨rfl, rfl⟩

/-- A key in quotes, or one in which no gap stands. -/
def isTidyKey (key name : List Char) : Bool :=
  startsKeyQuote key || isCode key && name.all (!isBlank ·)

theorem IsMark.isCode {isOptional : Bool} {mark : List Char}
    (h : IsMark isOptional mark) :
    isCode mark = true := by
  rw [isCode_iff]
  intro c hc
  cases h with
  | absent hblank => exact isQuote_of_isBlank (hblank c hc)
  | present hbefore hafter =>
    rcases mem_append.1 hc with hc | hc
    · exact isQuote_of_isBlank (hbefore c hc)
    · rcases mem_cons.1 hc with rfl | hc
      · decide
      · exact isQuote_of_isBlank (hafter c hc)

theorem IsMark.condensed {isOptional : Bool} {mark : List Char}
    (h : IsMark isOptional mark) :
    IsMark isOptional (condensed mark) := by
  cases h with
  | absent hblank => exact .absent (isBlank_of_mem_condensed hblank)
  | @present before after hbefore hafter =>
    have hmark : Source.condensed (before ++ '?' :: after)
        = Source.condensed before ++ '?' :: Source.condensed after :=
      condense_append rfl before after
    rw [hmark]
    exact .present (isBlank_of_mem_condensed hbefore) (isBlank_of_mem_condensed hafter)

/-- A tidy key without quotes is code up to its colon. -/
theorem isCode_of_isTidyKey (hquote : startsKeyQuote key = false)
    (htext : trimStart (key ++ ':' :: rest) = key ++ ':' :: rest)
    (htidy : isTidyKey (trim key) name = true) :
    isCode key = true ∧ ∀ c ∈ name, isBlank c = false := by
  have hstarts : startsKeyQuote (trim key) = false := by
    cases key with
    | nil => rfl
    | cons c key =>
      have hc : isBlank c = false := isBlank_of_trimStart htext
      have htrim : trim (c :: key) = c :: trimEnd key := trim_append_cons hc [] key
      rw [htrim]
      exact hquote
  rw [isTidyKey, hstarts, Bool.false_or, Bool.and_eq_true] at htidy
  exact ⟨isCode_trim_iff.1 htidy.1, by simpa using htidy.2⟩

theorem KeyForm.singleSpaced {text key name value : List Char} {isOptional : Bool}
    (h : KeyForm text key name isOptional value) (htext : trimStart text = text)
    (htidy : isTidyKey key name = true) :
    ∃ key', startsKeyQuote key' = startsKeyQuote key
      ∧ KeyForm (singleSpaced text) key' name isOptional (Source.singleSpaced value) := by
  cases h with
  | @plain key value hcolon hquote =>
    obtain ⟨hcode, hblank⟩ := isCode_of_isTidyKey hquote htext htidy
    obtain ⟨hname, hmarked⟩ := plainName_condensed hblank
    refine ⟨trim (condensed key), ?_, ?_⟩
    · rw [startsKeyQuote_of_isCode (isCode_trim_iff.2 hcode),
        startsKeyQuote_of_isCode (isCode_trim_iff.2 (isCode_condensed hcode))]
    · rw [singleSpaced_append hcode rfl (by decide) rfl, ← hname, ← hmarked]
      exact .plain (notMem_condensed hcolon (by decide))
        (startsKeyQuote_of_isCode (isCode_condensed hcode))
  | quoted hquote hbody hmark =>
    refine ⟨_, rfl, ?_⟩
    rw [singleSpaced_quoted (isKeyQuote_cases hquote).2.2 hbody,
      singleSpaced_append hmark.isCode rfl (by decide) rfl]
    exact .quoted hquote hbody hmark.condensed

/-! ## In front of the key -/

theorem isGap_head (h : (marks (c :: cs)).head?.any Marked.isGap = true) :
    isBlank c = true ∨ c = '/' := by
  by_cases hslash : c = '/'
  · exact .inr hslash
  · cases hquote : isQuote c with
    | false =>
      rw [marks_cons hquote hslash] at h
      exact .inl (by simpa [Marked.isGap] using h)
    | true =>
      rw [marks, mark_eq_scan, Scan.run_cons] at h
      simp [Scan.step, hslash, hquote, Marked.isGap] at h

theorem dropGap_solid (hblank : isBlank c = false) (hslash : c ≠ '/') (cs : List Char) :
    dropGap (c :: cs) = c :: cs := by
  have hgap : (marks (c :: cs)).head?.any Marked.isGap = false := by
    cases hhead : (marks (c :: cs)).head?.any Marked.isGap with
    | false => rfl
    | true => exact absurd (isGap_head hhead) (by simp [hblank, hslash])
  have hchars := unmark_marks (c :: cs)
  rw [dropGap]
  cases hmarks : marks (c :: cs) with
  | nil =>
    rw [hmarks] at hchars
    cases hchars
  | cons m ms =>
    rw [hmarks, head?_cons, Option.any_some] at hgap
    rw [dropWhile_cons_of_neg (by simp [hgap]), ← hmarks, hchars]

/-- An entry text with a tidy key does not start with a gap. -/
theorem KeyForm.dropGap_eq (h : KeyForm text key name isOptional value)
    (htext : trimStart text = text) (htidy : isTidyKey key name = true) :
    dropGap text = text := by
  cases h with
  | @plain key value hcolon hquote =>
    obtain ⟨hcode, -⟩ := isCode_of_isTidyKey hquote htext htidy
    cases key with
    | nil => exact dropGap_solid rfl (by decide) value
    | cons c key =>
      exact dropGap_solid (isBlank_of_trimStart htext)
        (isCode_iff.1 hcode c mem_cons_self).2 _
  | @quoted quote body mark value isOptional hquote hbody hmark =>
    obtain ⟨hblank, -, hisQuote⟩ := isKeyQuote_cases hquote
    refine dropGap_solid hblank ?_ _
    rintro rfl
    cases hisQuote

theorem singleSpaced_word (h : isCode word = true)
    (hblank : ∀ c ∈ word, isBlank c = false) (rest : List Char) :
    singleSpaced (word ++ rest) = word ++ singleSpaced rest := by
  rw [isCode_iff] at h
  induction word with
  | nil => rfl
  | cons c word ih =>
    rw [forall_mem_cons] at h hblank
    rw [cons_append, singleSpaced_cons h.1.1 h.1.2 hblank.1, ih h.2 hblank.2]
    rfl

/-- A word at the front of a single-spaced text stands there in the text. -/
theorem exists_of_singleSpaced_eq (h : isCode word = true)
    (hblank : ∀ c ∈ word, isBlank c = false) (heq : singleSpaced cs = word ++ rest) :
    ∃ rest', cs = word ++ rest' ∧ singleSpaced rest' = rest := by
  rw [isCode_iff] at h
  induction word generalizing cs with
  | nil => exact ⟨cs, rfl, heq⟩
  | cons c word ih =>
    rw [forall_mem_cons] at h hblank
    have hhead := head?_singleSpaced cs
    rw [heq] at hhead
    have hc : cs.head? = some c := by
      split at hhead
      · rw [cons_append, head?_cons, Option.some.injEq] at hhead
        rw [hhead] at hblank
        cases hblank.1
      · exact hhead.symm
    obtain ⟨tail, rfl⟩ := head?_eq_some_iff.1 hc
    rw [singleSpaced_cons h.1.1 h.1.2 hblank.1] at heq
    obtain ⟨rest', rfl, hrest⟩ := ih h.2 hblank.2 (List.cons.inj heq).2
    exact ⟨rest', rfl, hrest⟩

/-- Only a space stands behind `readonly`. -/
def isTidyReadonly (cs : List Char) : Bool :=
  (("readonly".toList.isPrefixOf? cs).bind List.head?).all fun c => c == ' ' || !isBlank c

/-- An entry in which no gap stands but in front of it, around its question
mark and in its value, and whose value is not made of comments only. -/
def isTidyEntry (entry : List Char) : Bool :=
  match keyed? (entryText entry) with
  | none => dropGap entry == []
  | some (key, name, _, value) =>
    isTidyKey key name && isTidyReadonly (dropGap entry)
      && (dropGap value != [] || trim value == [])

theorem trimStart_entryText (entry : List Char) :
    trimStart (entryText entry) = entryText entry :=
  dropWhile_idempotent _ _

theorem KeyForm.not_isTidyKey {after : List Char}
    (h : KeyForm ("readonly/".toList ++ after) key name isOptional value)
    (htext : trimStart ("readonly/".toList ++ after) = "readonly/".toList ++ after) :
    ¬ isTidyKey key name = true := by
  intro htidy
  generalize hcons : "readonly/".toList ++ after = text at h htext
  cases h with
  | @plain key value hcolon hquote =>
    obtain ⟨hcode, -⟩ := isCode_of_isTidyKey hquote htext htidy
    have hslash : '/' ∈ key := by
      rcases append_eq_append_iff.1 hcons with ⟨more, rfl, -⟩ | ⟨more, hkey, hmore⟩
      · exact mem_append_left more (by decide)
      · cases more with
        | nil =>
          rw [append_nil] at hkey
          exact hkey ▸ by decide
        | cons c more =>
          obtain ⟨rfl, -⟩ := List.cons.inj hmore
          have hmem : ':' ∈ "readonly/".toList :=
            hkey ▸ mem_append_right key mem_cons_self
          exact absurd hmem (by decide)
    exact (isCode_iff.1 hcode '/' hslash).2 rfl
  | @quoted quote body mark value isOptional hquote hbody hmark =>
    obtain ⟨rfl, -⟩ := List.cons.inj hcons
    cases hquote

/-- Single spacing does not bring a space behind `readonly`. -/
theorem not_readonly_singleSpaced (h : KeyForm text key name isOptional value)
    (htext : trimStart text = text) (hkey : isTidyKey key name = true)
    (hreadonly : isTidyReadonly text = true)
    (hnone : "readonly ".toList.isPrefixOf? text = none) :
    "readonly ".toList.isPrefixOf? (singleSpaced text) = none := by
  cases hsome : "readonly ".toList.isPrefixOf? (singleSpaced text) with
  | none => rfl
  | some rest =>
    rw [isPrefixOf?_eq_some_iff_append_eq] at hsome
    have hword : singleSpaced text = "readonly".toList ++ ' ' :: rest := hsome.symm
    obtain ⟨after, rfl, hafter⟩ := exists_of_singleSpaced_eq (by decide) (by decide) hword
    have hhead := head?_singleSpaced after
    rw [hafter, head?_cons] at hhead
    cases after with
    | nil => cases hhead
    | cons c after =>
      have hread : "readonly".toList.isPrefixOf? ("readonly".toList ++ c :: after)
          = some (c :: after) :=
        isPrefixOf?_eq_some_iff_append_eq.2 rfl
      have hc : c ≠ ' ' := by
        rintro rfl
        have hspace : "readonly ".toList.isPrefixOf? ("readonly".toList ++ ' ' :: after)
            = some after :=
          isPrefixOf?_eq_some_iff_append_eq.2 rfl
        rw [hspace] at hnone
        cases hnone
      have hblank : isBlank c = false := by
        rw [isTidyReadonly, hread] at hreadonly
        simpa [hc] using hreadonly
      have hslash : c = '/' := by
        split at hhead
        · rename_i hgap
          exact (isGap_head hgap).resolve_left (by simp [hblank])
        · exact absurd (Option.some.inj hhead).symm hc
      subst hslash
      -- a comment behind `readonly` would be a part of the key
      have hcons : "readonly".toList ++ '/' :: after = "readonly/".toList ++ after := rfl
      rw [hcons] at h htext
      exact absurd hkey (h.not_isTidyKey htext)

theorem entryText_singleSpaced
    (h : KeyForm (entryText entry) key name isOptional value)
    (hkey : isTidyKey key name = true)
    (hreadonly : isTidyReadonly (dropGap entry) = true) :
    entryText (singleSpaced entry) = singleSpaced (entryText entry) := by
  have htext := trimStart_entryText entry
  have hgap := h.dropGap_eq htext hkey
  rw [entryText, dropGap_singleSpaced]
  cases hword : "readonly ".toList.isPrefixOf? (dropGap entry) with
  | some rest =>
    have hentry : entryText entry = trimStart rest := by rw [entryText, hword]; rfl
    rw [isPrefixOf?_eq_some_iff_append_eq] at hword
    have hdrop : dropGap entry = "readonly".toList ++ ' ' :: rest := hword.symm
    obtain ⟨after, hafter⟩ : ∃ after, singleSpaced (' ' :: rest) = ' ' :: after := by
      refine head?_eq_some_iff.1 ?_
      rw [head?_singleSpaced, marks_cons rfl (by decide)]
      rfl
    have hread :
        "readonly ".toList.isPrefixOf? (singleSpaced (dropGap entry)) = some after := by
      rw [hdrop, singleSpaced_word (by decide) (by decide), hafter]
      exact isPrefixOf?_eq_some_iff_append_eq.2 rfl
    have hstart : trimStart after = singleSpaced (dropGap (' ' :: rest)) := by
      rw [← trimStart_singleSpaced, hafter]
      rfl
    have hspace : dropGap (' ' :: rest) = entryText entry := by
      rw [← dropGap_trimStart, ← hgap, hentry]
      rfl
    rw [hread, Option.getD_some, hstart, hspace]
  | none =>
    have hentry : entryText entry = dropGap entry := by
      have hstart : entryText entry = trimStart (dropGap entry) := by
        rw [entryText, hword]; rfl
      rw [← hgap, hstart, dropGap_trimStart, dropGap_dropGap]
    rw [hentry] at h htext
    rw [not_readonly_singleSpaced h htext hkey hreadonly hword, Option.getD_none,
      trimStart_singleSpaced, dropGap_dropGap, hentry]

/-! ## Members -/

/-- The member with its value tightened. -/
def Member.tight (m : Member) : Member :=
  { m with value := Source.tight m.value }

/-- A tidy entry in any layout. -/
theorem member?_singleSpaced (h : isTidyEntry entry = true) :
    member? (singleSpaced entry) = (member? entry).map Member.tight := by
  rw [isTidyEntry] at h
  split at h
  · rename_i hnone
    rw [beq_iff_eq] at h
    have hspaced : dropGap (singleSpaced entry) = [] := by
      rw [dropGap_singleSpaced, h]
      rfl
    rw [member?_eq_none (by simp [hspaced]), member?_eq_none (by simp [h])]
    rfl
  · rename_i key name isOptional value hkeyed
    rw [Bool.and_eq_true, Bool.and_eq_true, Bool.or_eq_true, bne_iff_ne, beq_iff_eq] at h
    obtain ⟨⟨hkey, hreadonly⟩, hvalue⟩ := h
    have hform := keyed?_eq_some_iff.1 hkeyed
    obtain ⟨key', hstarts, hform'⟩ := hform.singleSpaced (trimStart_entryText entry) hkey
    rw [member?_eq_keyed?, member?_eq_keyed?, hkeyed,
      entryText_singleSpaced hform hkey hreadonly, keyed?_eq_some_iff.2 hform',
      Option.bind_some, Option.bind_some, namedMember?, namedMember?, hstarts]
    have hnil : (trim (singleSpaced value) ≠ []) = (trim value ≠ []) := by
      rw [← tight, ne_eq, tight_eq_nil_iff]
      exact propext (not_congr ⟨fun h => hvalue.resolve_left (not_not_intro h),
        dropGap_eq_nil_of_trim⟩)
    simp only [hnil]
    split
    · have htight : trim (singleSpaced value) = tight (trim value) :=
        (tight_trim value).symm
      rw [htight]
      rfl
    · rfl

end Source

end TypedContent

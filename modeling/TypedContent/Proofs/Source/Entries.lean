import TypedContent.Proofs.Source.Keys

/-!
# Entries

How an entry of an object body is read, in steps: what stands in front of
the key is dropped (`entryText`), the key is taken off (`keyed?`), and the
rest is the value if the key is a name (`namedMember?`). The steps look at
an entry from the left, so that a key once read stays the same whatever the
value goes on with (`member?_append`).
-/

namespace TypedContent

namespace Source

open List Option Text

variable {c : Char} {start more : List Char} {ms : List Marked}

/-! ## In front of an entry -/

theorem isQuote_of_isBlank (h : isBlank c = true) : isQuote c = false ∧ c ≠ '/' := by
  constructor
  · cases hquote : isQuote c with
    | false => rfl
    | true =>
      simp only [isQuote, Bool.or_eq_true, beq_iff_eq] at hquote
      rcases hquote with (rfl | rfl) | rfl <;> cases h
  · rintro rfl
    cases h

/-- A blank of the code is a gap. -/
theorem dropGap_trimStart (cs : List Char) : dropGap (trimStart cs) = dropGap cs := by
  induction cs with
  | nil => rfl
  | cons c cs ih =>
    cases hblank : isBlank c with
    | false => rw [trimStart_cons hblank]
    | true =>
      obtain ⟨hquote, hslash⟩ := isQuote_of_isBlank hblank
      have hstart : trimStart (c :: cs) = trimStart cs := dropWhile_cons_of_pos hblank
      have hgap : Marked.isGap ⟨.code, c⟩ = true := by simp [Marked.isGap, hblank]
      rw [hstart, ih, dropGap, dropGap, marks_cons hquote hslash,
        dropWhile_cons_of_pos hgap]

/-! ## Reading in steps -/

/-- An entry without what may stand in front of its key. -/
def entryText (entry : List Char) : List Char :=
  trimStart (("readonly ".toList.isPrefixOf? (dropGap entry)).getD (dropGap entry))

/-- The member that a key and a value make. -/
def namedMember? : List Char × List Char × Bool × List Char → Option Member
  | (key, name, isOptional, value) =>
    if (startsKeyQuote key || isPlainKey (unquote name)) && trim value ≠ [] then
      some { name := unquote name, isOptional, value := trim value }
    else none

theorem member?_eq_keyed? (entry : List Char) :
    member? entry = (keyed? (entryText entry)).bind namedMember? := by
  have hread : member? entry = (splitKey? (entryText entry)).bind fun split =>
      ([':'].isPrefixOf? (splitOptional (trim split.1) (trimStart split.2)).2.2).bind
        fun value =>
        namedMember? (trim split.1, (splitOptional (trim split.1) (trimStart split.2)).1,
          (splitOptional (trim split.1) (trimStart split.2)).2.1, value) := rfl
  rw [hread, keyed?_eq, bind_assoc]
  congr 1
  funext split
  rw [bind_assoc]
  rfl

/-- What stands in front of an entry does not matter. -/
theorem member?_trimStart (entry : List Char) :
    member? (trimStart entry) = member? entry := by
  rw [member?_eq_keyed?, member?_eq_keyed?, entryText, entryText, dropGap_trimStart]

/-- Empty entries are no members, so it does not matter that they are
dropped. -/
theorem members_eq (body : List Char) :
    members body = (segments memberSeparators body).filterMap fun entry =>
      member? (trim entry) := by
  rw [members, parts, filterMap_filter, filterMap_map]
  refine filterMap_congr fun entry _ => ?_
  by_cases hnil : trim entry = []
  · have hnone : member? [] = none := rfl
    simp [hnil, hnone]
  · simp [hnil]

/-! ## Values that go on -/

/-- A beginning that a text does not have, it does not get from what
follows, if a character of the text is none of the beginning. -/
theorem isPrefixOf?_append {cs : List Char} (h : ∃ c ∈ cs, c ∉ start) (more : List Char) :
    start.isPrefixOf? (cs ++ more) = (start.isPrefixOf? cs).map (· ++ more) := by
  cases hhead : start.isPrefixOf? cs with
  | some rest =>
    rw [isPrefixOf?_eq_some_iff_append_eq] at hhead
    rw [map_some, isPrefixOf?_eq_some_iff_append_eq, ← hhead, append_assoc]
  | none =>
    rw [map_none, eq_none_iff_forall_ne_some]
    intro rest heq
    rw [isPrefixOf?_eq_some_iff_append_eq] at heq
    rcases append_eq_append_iff.1 heq with ⟨mid, hmid, -⟩ | ⟨mid, hmid, -⟩
    · rw [hmid, eq_none_iff_forall_ne_some] at hhead
      exact hhead mid (isPrefixOf?_eq_some_iff_append_eq.2 rfl)
    · obtain ⟨c, hc, hnot⟩ := h
      exact hnot (hmid ▸ mem_append_left mid hc)

theorem entryText_suffix_dropGap (entry : List Char) :
    entryText entry <:+ dropGap entry := by
  refine (dropWhile_suffix _).trans ?_
  cases hreadonly : "readonly ".toList.isPrefixOf? (dropGap entry) with
  | none => exact suffix_rfl
  | some rest => exact ⟨_, isPrefixOf?_eq_some_iff_append_eq.1 hreadonly⟩

theorem entryText_suffix (entry : List Char) : entryText entry <:+ entry := by
  have hdrop : dropGap entry <:+ entry := by
    have hmarks :
        unmark ((marks entry).dropWhile Marked.isGap) <:+ unmark (marks entry) :=
      (dropWhile_suffix _).map _
    rwa [unmark_marks] at hmarks
  exact (entryText_suffix_dropGap entry).trans hdrop

theorem unmark_of_marks_append {cs : List Char}
    (h : marks (cs ++ more) = marks cs ++ ms) :
    unmark ms = more := by
  have hchars := unmark_marks (cs ++ more)
  rw [h, unmark, map_append, ← unmark, unmark_marks] at hchars
  exact append_cancel_left hchars

theorem dropGap_append {cs : List Char} (h : marks (cs ++ more) = marks cs ++ ms) :
    dropGap (cs ++ more) = if dropGap cs = [] then unmark (ms.dropWhile Marked.isGap)
      else dropGap cs ++ more := by
  rw [dropGap, h, dropWhile_append, dropGap, ← unmark_of_marks_append h]
  cases (marks cs).dropWhile Marked.isGap with
  | nil => rfl
  | cons m rest => exact map_append

/-- A character that may not stand in front of a key shows that the key has
started. -/
theorem entryText_append {cs : List Char} (hc : c ∈ dropGap cs)
    (hword : c ∉ "readonly ".toList) (hblank : isBlank c = false)
    (hmarks : marks (cs ++ more) = marks cs ++ ms) :
    entryText (cs ++ more) = entryText cs ++ more := by
  have hhead : "readonly ".toList.isPrefixOf? (dropGap cs ++ more) = _ :=
    isPrefixOf?_append ⟨c, hc, hword⟩ more
  rw [entryText, entryText, dropGap_append hmarks, if_neg (ne_nil_of_mem hc), hhead]
  cases hreadonly : "readonly ".toList.isPrefixOf? (dropGap cs) with
  | none => exact trimStart_append ⟨c, hc, hblank⟩ more
  | some rest =>
    rw [isPrefixOf?_eq_some_iff_append_eq] at hreadonly
    have hmem : c ∈ rest := by
      rw [← hreadonly, mem_append] at hc
      exact hc.resolve_left hword
    exact trimStart_append ⟨c, hmem, hblank⟩ more

/-! ## Blanks behind an entry -/

theorem member?_eq_none {entry : List Char} (h : ':' ∉ dropGap entry) :
    member? entry = none := by
  rw [member?_eq_keyed?]
  cases hkeyed : keyed? (entryText entry) with
  | none => rfl
  | some found =>
    have hsuffix := (keyed?_suffix hkeyed).trans (entryText_suffix_dropGap entry)
    exact absurd (hsuffix.subset mem_cons_self) h

/-- No colon is found among the blanks behind a text. -/
theorem keyed?_append_blanks {blanks : List Char} (h : ∀ c ∈ blanks, isBlank c = true)
    {text : List Char} (hnone : keyed? text = none) :
    keyed? (text ++ blanks) = none := by
  have hcolon : ':' ∉ blanks := fun hmem => by cases h ':' hmem
  cases hkeyed : keyed? (text ++ blanks) with
  | none => rfl
  | some found =>
    obtain ⟨key, name, isOptional, value⟩ := found
    obtain ⟨front, htext, hform⟩ := (keyed?_eq_some_iff.1 hkeyed).exists_front
    rcases append_eq_append_iff.1 htext with ⟨middle, -, hblanks⟩ | ⟨middle, rfl, hvalue⟩
    · exact absurd (hblanks ▸ mem_append_right middle mem_cons_self) hcolon
    · cases middle with
      | nil =>
        rw [nil_append] at hvalue
        exact absurd (hvalue ▸ mem_cons_self) hcolon
      | cons c middle =>
        obtain ⟨rfl, -⟩ := List.cons.inj hvalue
        rw [keyed?_eq_some_iff.2 (hform middle)] at hnone
        cases hnone

theorem member?_trimEnd (entry : List Char) :
    member? (trimEnd entry) = member? entry := by
  obtain ⟨blanks, hentry, hblank⟩ := exists_trimEnd_append entry
  obtain ⟨ms, hmarks⟩ := marks_append_blanks (trimEnd entry) hblank
  by_cases hcolon : ':' ∈ dropGap (trimEnd entry)
  · have htext : entryText entry = entryText (trimEnd entry) ++ blanks := by
      conv_lhs => rw [hentry]
      exact entryText_append hcolon (by decide) (by decide) hmarks
    rw [member?_eq_keyed?, member?_eq_keyed?, htext]
    cases hkeyed : keyed? (entryText (trimEnd entry)) with
    | none => rw [keyed?_append_blanks hblank hkeyed]
    | some found =>
      obtain ⟨key, name, isOptional, value⟩ := found
      rw [keyed?_append hkeyed, bind_some, bind_some, namedMember?, namedMember?,
        trim_append_blanks hblank]
  · have hcolon' : ':' ∉ dropGap entry := by
      have hblanks : ':' ∉ blanks := fun hmem => by cases hblank ':' hmem
      rw [hentry, dropGap_append hmarks]
      split
      · rw [← unmark_of_marks_append hmarks] at hblanks
        exact fun hmem => hblanks (((dropWhile_suffix _).map _).subset hmem)
      · exact fun hmem => (mem_append.1 hmem).elim hcolon hblanks
    rw [member?_eq_none hcolon, member?_eq_none hcolon']

theorem member?_trim (entry : List Char) : member? (trim entry) = member? entry := by
  rw [trim, member?_trimEnd, member?_trimStart]

/-! ## Entries that open a block -/

/-- A text up to a brace of the code, such as an entry up to the block that
is its value. -/
def IsOpened (cs : List Char) : Prop :=
  (marks cs).getLast? = some ⟨.code, '{'⟩

instance (cs : List Char) : Decidable (IsOpened cs) :=
  inferInstanceAs (Decidable ((marks cs).getLast? = some ⟨.code, '{'⟩))

namespace IsOpened

variable {cs : List Char} (h : IsOpened cs)

include h

theorem exists_append :
    ∃ start, cs = start ++ ['{'] ∧ marks cs = marks start ++ [⟨.code, '{'⟩]
    ∧ ∀ more, marks (cs ++ more) = marks cs ++ marks more := by
  obtain ⟨before, hbefore⟩ := getLast?_eq_some_iff.1 h
  obtain ⟨left, right, rfl, hleft, hright, happend⟩ := marks_split (by decide) hbefore
  have hnil : right = [] := by
    rw [← unmark_marks right, hright]
    rfl
  subst hnil
  refine ⟨left, rfl, hbefore.trans (by rw [hleft]), fun more => ?_⟩
  rw [append_assoc, singleton_append, happend, hbefore, append_assoc]
  rfl

omit h in
theorem marks_brace (h : IsOpened (start ++ ['{'])) (more : List Char) :
    marks (start ++ '{' :: more) = marks start ++ ⟨.code, '{'⟩ :: marks more := by
  obtain ⟨start', hstart, hmarks, happend⟩ := h.exists_append
  obtain ⟨rfl, -⟩ := append_inj' hstart rfl
  have hmore := happend more
  rwa [hmarks, append_assoc, append_assoc] at hmore

theorem mem_dropGap : '{' ∈ dropGap cs := by
  obtain ⟨start, -, hmarks, -⟩ := h.exists_append
  refine List.mem_map.2 ⟨⟨.code, '{'⟩, ?_, rfl⟩
  rw [hmarks, dropWhile_append]
  split
  · rw [dropWhile_cons_of_neg (by decide)]
    exact mem_cons_self
  · exact mem_append_right _ mem_cons_self

theorem entryText_append (more : List Char) :
    entryText (cs ++ more) = entryText cs ++ more := by
  obtain ⟨-, -, -, hmarks⟩ := h.exists_append
  exact Source.entryText_append h.mem_dropGap (by decide) (by decide) (hmarks more)

/-- What an entry is read as up to an opening brace, it is read as whatever
follows. -/
theorem member?_append {member : Member} (hread : member? cs = some member)
    (more : List Char) :
    member? (cs ++ more)
      = some { member with value := trimEnd (member.value ++ more) } := by
  rw [member?_eq_keyed?] at hread
  obtain ⟨⟨key, name, isOptional, value⟩, hkeyed, hnamed⟩ := bind_eq_some_iff.1 hread
  rw [namedMember?] at hnamed
  split at hnamed
  · rename_i hname
    obtain rfl := Option.some.inj hnamed
    simp only [Bool.and_eq_true, decide_eq_true_eq] at hname
    have hends : ∃ start, value = start ++ ['{'] := by
      obtain ⟨start, hcs, -⟩ := h.exists_append
      have hsuffix : value <:+ start ++ ['{'] :=
        hcs ▸ ((suffix_cons ':' value).trans (keyed?_suffix hkeyed)).trans
          (entryText_suffix cs)
      have hne : value ≠ [] := by
        rintro rfl
        exact hname.2 rfl
      rcases eq_nil_or_concat value with hnil | ⟨init, last, rfl⟩
      · exact absurd hnil hne
      · rw [concat_eq_append] at hsuffix ⊢
        obtain ⟨before, hbefore⟩ := hsuffix
        rw [← append_assoc] at hbefore
        obtain ⟨-, hlast⟩ := append_inj' hbefore rfl
        exact ⟨init, by rw [hlast]⟩
    obtain ⟨start, rfl⟩ := hends
    have hblank : isBlank '{' = false := by decide
    rw [member?_eq_keyed?, h.entryText_append, keyed?_append hkeyed, bind_some,
      namedMember?, hname.1, append_assoc, singleton_append]
    simp [trim_append_cons hblank, trimEnd_append_cons hblank,
      show trimEnd [] = [] from rfl]
  · cases hnamed

end IsOpened

end Source

end TypedContent

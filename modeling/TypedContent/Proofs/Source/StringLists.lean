import TypedContent.Proofs.Source.SpacedParts

/-!
# Lists of string literals

The values of an enumeration and the components of a zone are lists of
string literals, in square brackets with commas or as a union. In a literal,
the quote around it and the backslash stand behind a backslash (`spelling`),
so whatever the literals say, the separators and brackets inside them are
not seen: the list is cut exactly between its literals, with any blanks
around them (`parts_inner`).

What is taken from a literal is the text between its quotes as it is
written. The escapes are not resolved, so the list that is read is the list
of spellings, and it is the list of strings exactly if no string has its own
quote or a backslash in it (`string_list_decodes_iff`).
-/

namespace TypedContent

namespace Source

open List Text

variable {quote : Char}

/-! ## Spellings -/

/-- A character between two quotes: the quote itself and the backslash are
escaped. -/
def spellingOf (quote c : Char) : List Char :=
  if c = quote ∨ c = '\\' then ['\\', c] else [c]

/-- A string as it is written between two quotes. -/
def spelling (quote : Char) (value : List Char) : List Char :=
  value.flatMap (spellingOf quote)

/-- A string literal. -/
def literalText (quote : Char) (value : List Char) : List Char :=
  quote :: spelling quote value ++ [quote]

theorem spelling_cons (quote c : Char) (value : List Char) :
    spelling quote (c :: value) = spellingOf quote c ++ spelling quote value :=
  flatMap_cons

theorem length_le_spelling (quote : Char) (value : List Char) :
    value.length ≤ (spelling quote value).length := by
  induction value with
  | nil => exact Nat.le_refl 0
  | cons c value ih =>
    have hpos : 1 ≤ (spellingOf quote c).length := by
      unfold spellingOf
      split <;> simp
    rw [spelling_cons, length_append, length_cons]
    omega

theorem spelling_ne_nil {value : List Char} (h : value ≠ []) :
    spelling quote value ≠ [] := by
  have hlength := length_le_spelling quote value
  have hpos := length_pos_iff.2 h
  exact length_pos_iff.1 (by omega)

/-- An escape makes the text longer, so a string that is written as it is
has nothing to escape. -/
theorem spelling_eq_self_iff {value : List Char} :
    spelling quote value = value ↔ quote ∉ value ∧ '\\' ∉ value := by
  induction value with
  | nil => simp [spelling]
  | cons c value ih =>
    rw [spelling_cons, spellingOf, mem_cons, mem_cons]
    split
    · rename_i hescaped
      constructor
      · intro heq
        have hlength := congrArg List.length heq
        have hle := length_le_spelling quote value
        simp only [length_append, length_cons, length_nil] at hlength
        omega
      · rintro ⟨hquote, hslash⟩
        rcases hescaped with rfl | rfl
        · exact absurd (.inl rfl) hquote
        · exact absurd (.inl rfl) hslash
    · rename_i hplain
      rw [not_or] at hplain
      rw [singleton_append, cons_inj_right, ih]
      simp [Ne.symm hplain.1, Ne.symm hplain.2]

theorem unquote_literalText (hquote : isKeyQuote quote = true) (value : List Char) :
    unquote (literalText quote value) = spelling quote value := by
  obtain ⟨hblank, -, hisQuote⟩ := isKeyQuote_cases hquote
  have htrim : trim (literalText quote value) = literalText quote value :=
    trim_of_isSolid (isSolid_enclosed hblank hblank _)
  rw [unquote, htrim, literalText, cons_append]
  simp [hisQuote]

/-! ## Marks -/

/-- The scan stays in the literal up to the closing quote. -/
theorem mark_spelling (hquote : isKeyQuote quote = true) (value rest : List Char) :
    mark (.literal quote) (spelling quote value ++ quote :: rest)
      = (spelling quote value ++ [quote]).map (Marked.mk .literal) ++ marks rest := by
  have hslash : quote ≠ '\\' := by
    rintro rfl
    cases hquote
  induction value with
  | nil =>
    rw [spelling, flatMap_nil, nil_append, mark]
    · simp [marks]
    · exact fun _ _ hcons => absurd hcons hslash
  | cons c value ih =>
    rw [spelling_cons, append_assoc, append_assoc]
    unfold spellingOf
    split
    · rw [cons_append, singleton_append, mark, ih]
      rfl
    · rename_i hplain
      rw [not_or] at hplain
      rw [singleton_append, mark]
      · simp [hplain.1, ih]
      · exact fun _ _ hcons => absurd hcons hplain.2

theorem marks_literalText (hquote : isKeyQuote quote = true) (value rest : List Char) :
    marks (literalText quote value ++ rest)
      = (literalText quote value).map (Marked.mk .literal) ++ marks rest := by
  have hisQuote := (isKeyQuote_cases hquote).2.2
  have hslash : quote ≠ '/' := by
    rintro rfl
    cases hquote
  have htext : literalText quote value ++ rest
      = quote :: (spelling quote value ++ quote :: rest) := by
    simp [literalText]
  rw [htext, marks, mark]
  · rw [if_pos hisQuote, mark_spelling hquote]
    rfl
  · exact fun _ hcons => absurd hcons hslash
  · exact fun _ hcons => absurd hcons hslash

/-! ## Lists -/

/-- The separators of both forms of lists. -/
def listSeparators : List Char :=
  [',', '|']

/-- A string in a list: which quote is written around it and which blanks
stand on its two sides. -/
structure ListedString where
  before : List Char
  quote : Char
  value : List Char
  after : List Char
  isBlank_before : ∀ c ∈ before, isBlank c = true
  isKeyQuote_quote : isKeyQuote quote = true
  value_ne_nil : value ≠ []
  isBlank_after : ∀ c ∈ after, isBlank c = true

namespace ListedString

/-- The literal with its blanks. -/
def text (s : ListedString) : List Char :=
  s.before ++ (literalText s.quote s.value ++ s.after)

/-- The string as it is written. -/
def spelled (s : ListedString) : List Char :=
  spelling s.quote s.value

theorem trim_text (s : ListedString) : trim s.text = literalText s.quote s.value := by
  have hblank := (isKeyQuote_cases s.isKeyQuote_quote).1
  have hsolid : isSolid (literalText s.quote s.value) = true :=
    isSolid_enclosed hblank hblank _
  have hstart : trimStart s.text = literalText s.quote s.value ++ s.after :=
    trimStart_blanks_append s.isBlank_before hblank _
  rw [trim, hstart, trimEnd_append_blanks s.isBlank_after, trimEnd_of_isSolid hsolid]

end ListedString

/-- Blanks are plain, and they separate nothing in a list. -/
theorem balanced_blanks {blanks : List Char} (h : ∀ c ∈ blanks, isBlank c = true) :
    Balanced listSeparators blanks := by
  have hsigns :
      ∀ d ∈ ['\'', '"', '\x60', '/', '=', '{', '[', '(', '<', '}', ']', ')',
        '>', ',', '|'],
      isBlank d = false := by decide
  refine .ofPlain fun c hc => ?_
  have hother :
      c ∉ ['\'', '"', '\x60', '/', '=', '{', '[', '(', '<', '}', ']', ')', '>',
        ',', '|'] := by
    intro hmem
    have hblank := h c hc
    rw [hsigns c hmem] at hblank
    cases hblank
  simp only [mem_cons, not_mem_nil, or_false, not_or] at hother
  simp [isPlain, isQuote, opensNesting, closesNesting, listSeparators, hother]

/-- A scan for separators passes over a listed string. -/
theorem segmentsFrom_text (s : ListedString) (rest : List Char) :
    segmentsFrom listSeparators 0 false (marks (s.text ++ rest))
      = s.text.foldr consSegment (segmentsFrom listSeparators 0 false (marks rest)) := by
  have hbefore := balanced_blanks s.isBlank_before
  have hafter := balanced_blanks s.isBlank_after
  have hequals : (s.quote == '=') = false := by
    have := s.isKeyQuote_quote
    simp only [isKeyQuote, Bool.or_eq_true, beq_iff_eq] at this
    rcases this with h | h <;> rw [h] <;> rfl
  have htext :
      s.text ++ rest = s.before ++ (literalText s.quote s.value
        ++ (s.after ++ rest)) := by
    simp [ListedString.text]
  rw [htext, hbefore.marks_append, hbefore.segmentsFrom_append (.inr fun _ h => h),
    marks_literalText s.isKeyQuote_quote, literalText, segmentsFrom_literals, hequals,
    hafter.marks_append, hafter.segmentsFrom_append (.inr fun _ h => h),
    ListedString.text, literalText]
  simp only [foldr_append]

/-- The two forms of a list. -/
inductive ListForm where
  | tuple
  | union
deriving DecidableEq, Repr

namespace ListForm

def separator : ListForm → Char
  | tuple => ','
  | union => '|'

/-- The literals with separators between them. -/
def inner (form : ListForm) (items : List ListedString) : List Char :=
  [form.separator].intercalate (items.map ListedString.text)

/-- A list as it is written. -/
def text (form : ListForm) (items : List ListedString) : List Char :=
  match form with
  | tuple => '[' :: form.inner items ++ [']']
  | union => form.inner items

theorem inner_singleton (form : ListForm) (s : ListedString) :
    form.inner [s] = s.text := by
  rw [inner, map_singleton, intercalate_singleton]

theorem inner_cons_cons (form : ListForm) (s t : ListedString)
    (items : List ListedString) :
    form.inner (s :: t :: items) = s.text ++ form.separator
      :: form.inner (t :: items) := by
  rw [inner, map_cons, map_cons, intercalate_cons_cons, append_assoc, singleton_append,
    ← map_cons]
  rfl

/-- A list starts with its first literal. -/
theorem exists_inner_eq (form : ListForm) (s : ListedString) (items : List ListedString) :
    ∃ rest, form.inner (s :: items) = s.before ++ s.quote :: rest := by
  have hquote : ∀ more, s.text ++ more
      = s.before ++ s.quote
        :: (spelling s.quote s.value ++ s.quote :: (s.after ++ more)) := by
    simp [ListedString.text, literalText]
  cases items with
  | nil => exact ⟨_, by rw [inner_singleton, ← append_nil s.text, hquote]⟩
  | cons t items => exact ⟨_, by rw [inner_cons_cons, hquote]⟩

end ListForm

theorem segments_text_append (s : ListedString) {sep : Char}
    (hsep : sep ∈ listSeparators) (hplain : isPlain sep = true) (rest : List Char) :
    segments listSeparators (s.text ++ sep :: rest)
      = s.text :: segments listSeparators rest := by
  obtain ⟨hquote, hslash, hequals, hopens, hcloses⟩ := isPlain_iff.1 hplain
  have hcut : isCut listSeparators 0 ⟨.code, sep⟩ = true := by
    simp [isCut, hsep, hopens, hcloses]
  have hflag : (sep == '=') = false := by simpa using hequals
  rw [segments, segmentsFrom_text, marks_cons hquote hslash, segmentsFrom, hcut, hflag,
    if_pos rfl, foldr_consSegment, append_nil, segments]

theorem segments_inner (form : ListForm) (s : ListedString) (items : List ListedString) :
    segments listSeparators (form.inner (s :: items))
      = (s :: items).map ListedString.text := by
  have hsep : form.separator ∈ listSeparators ∧ isPlain form.separator = true := by
    cases form <;> decide
  induction items generalizing s with
  | nil =>
    have htext := segmentsFrom_text s []
    rw [append_nil, marks_nil] at htext
    rw [segments, form.inner_singleton, htext, segmentsFrom,
      foldr_consSegment, append_nil]
    rfl
  | cons t items ih =>
    rw [form.inner_cons_cons, segments_text_append s hsep.1 hsep.2, ih]
    rfl

/-- A list is cut between its literals, and the blanks are trimmed away. -/
theorem parts_inner (form : ListForm) (items : List ListedString) :
    parts listSeparators (form.inner items) = items.map fun s =>
      literalText s.quote s.value := by
  cases items with
  | nil => exact parts_nil
  | cons s items =>
    have htrim : ((s :: items).map ListedString.text).map trim
        = (s :: items).map fun s => literalText s.quote s.value := by
      rw [map_map]
      exact map_congr_left fun t _ => t.trim_text
    rw [parts, segments_inner, htrim, filter_eq_self]
    intro part hpart
    obtain ⟨t, -, rfl⟩ := mem_map.1 hpart
    simp [literalText]

/-- A union starts with a quote, so that its text is not taken for one in
brackets. -/
theorem dropListBrackets_union (items : List ListedString) :
    dropListBrackets (trim (ListForm.union.text items))
      = trim (ListForm.union.text items) := by
  cases items with
  | nil => rfl
  | cons s items =>
    have hblank := (isKeyQuote_cases s.isKeyQuote_quote).1
    have hbracket : s.quote ≠ '[' := by
      intro heq
      have hquote := s.isKeyQuote_quote
      rw [heq] at hquote
      cases hquote
    obtain ⟨rest, hrest⟩ := ListForm.union.exists_inner_eq s items
    have htrim : trim (ListForm.union.text (s :: items)) = s.quote :: trimEnd rest := by
      rw [ListForm.text, hrest, trim, trimStart_blanks_append s.isBlank_before hblank]
      exact trimEnd_append_cons hblank [] rest
    rw [htrim, dropListBrackets]
    simp [List.isPrefixOf?, hbracket.symm]

/-- A list is read as the spellings of its strings. -/
theorem stringList_text (form : ListForm) (items : List ListedString) :
    stringList (form.text items) = items.map ListedString.spelled := by
  have hparts : parts listSeparators (dropListBrackets (trim (form.text items)))
      = items.map fun s => literalText s.quote s.value := by
    cases form with
    | tuple =>
      have htrim : trim (ListForm.tuple.text items)
          = '[' :: ListForm.tuple.inner items ++ [']'] :=
        trim_of_isSolid (isSolid_enclosed rfl rfl _)
      rw [htrim, dropListBrackets_enclosed, parts_inner]
    | union =>
      rw [dropListBrackets_union, parts_trim (by decide), ListForm.text, parts_inner]
  have hunquote : (items.map fun s => literalText s.quote s.value).map unquote
      = items.map ListedString.spelled := by
    rw [map_map]
    exact map_congr_left fun s _ => unquote_literalText s.isKeyQuote_quote s.value
  have hlist : stringList (form.text items)
      = ((parts listSeparators (dropListBrackets (trim (form.text items)))).map
        unquote).filter (· ≠ []) := rfl
  rw [hlist, hparts, hunquote, filter_eq_self]
  intro spelled hspelled
  obtain ⟨s, -, rfl⟩ := mem_map.1 hspelled
  exact decide_eq_true (spelling_ne_nil s.value_ne_nil)

/-- **When a list of literals is read as its strings.** A list of non-empty
strings, in single or double quotes, in brackets or as a union, with any
blanks around its literals, is read as what is written between the quotes.
That is the list of strings exactly if no string has the quote around it or
a backslash in it. -/
theorem string_list_decodes_iff (form : ListForm) (items : List ListedString) :
    stringList (form.text items) = items.map ListedString.spelled
      ∧ (stringList (form.text items) = items.map ListedString.value
        ↔ ∀ s ∈ items, s.quote ∉ s.value ∧ '\\' ∉ s.value) := by
  refine ⟨stringList_text form items, ?_⟩
  rw [stringList_text, map_inj_left]
  exact forall₂_congr fun s _ => spelling_eq_self_iff

/-- The strings `it's` and `C:\temp` in single quotes. -/
def escapedStrings : List ListedString :=
  [{ before := [], quote := '\'', value := "it's".toList, after := [' ']
     isBlank_before := by decide, isKeyQuote_quote := rfl
     value_ne_nil := by decide, isBlank_after := by decide },
    { before := [' '], quote := '\'', value := "C:\\temp".toList, after := []
      isBlank_before := by decide, isKeyQuote_quote := rfl
      value_ne_nil := by decide, isBlank_after := by decide }]

/-- Both strings keep the backslashes of their spellings. -/
theorem escapes_stay_in_strings :
    (String.ofList (ListForm.tuple.text escapedStrings) = "['it\\'s' , 'C:\\\\temp']"
        ∧ (stringList (ListForm.tuple.text escapedStrings)).map String.ofList
          = ["it\\'s", "C:\\\\temp"]
        ∧ stringList (ListForm.tuple.text escapedStrings)
          ≠ escapedStrings.map ListedString.value)
      ∧ String.ofList (ListForm.union.text escapedStrings) = "'it\\'s' | 'C:\\\\temp'"
      ∧ stringList (ListForm.union.text escapedStrings)
        ≠ escapedStrings.map ListedString.value := by
  decide +kernel

end Source

end TypedContent

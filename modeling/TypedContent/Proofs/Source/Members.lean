import Mathlib.Data.List.Basic
import TypedContent.Proofs.Source.Balanced
import TypedContent.Source.Member

/-!
# Reading what was written

The forms that declaration text is made of, read back: parts behind
separators (`parts_members`, `parts_intercalate`), keys (`unquote_name`,
`unquote_quoted`), lists of literals (`stringList_literals`) and names with
type arguments (`genericParts?_name`, `genericParts?_args`).

Reading trims at every step. A text that is *solid*, with no blank at either
end, survives that; the parts of a written text are balanced and solid, and
these two facts about each part are all that is used.
-/

namespace TypedContent

open List

variable {cs before after : List Char} {c sep : Char}

/-- Members are separated by semicolons, and commas may separate them. -/
def memberSeparators : List Char :=
  [',', ';']

namespace Text

variable {s : Char}

/-! ## Trimming -/

/-- The text is not empty and has no blank at either end. -/
def isSolid (cs : List Char) : Bool :=
  cs.head?.any (!isBlank ·) && cs.getLast?.any (!isBlank ·)

theorem isSolid_iff : isSolid cs = true ↔
    (∃ c, cs.head? = some c ∧ isBlank c = false) ∧ ∃ c, cs.getLast? = some c
      ∧ isBlank c = false := by
  simp [isSolid, Option.any_eq_true]

theorem trimStart_cons (h : isBlank c = false) (cs : List Char) :
    trimStart (c :: cs) = c :: cs := by
  simp [trimStart, h]

theorem trim_space (cs : List Char) : trim (' ' :: cs) = trim cs := rfl

theorem trimEnd_append (h : isBlank c = false) (cs : List Char) :
    trimEnd (cs ++ [c]) = cs ++ [c] := by
  simp [trimEnd, h]

theorem trimEnd_space (cs : List Char) : trimEnd (cs ++ [' ']) = trimEnd cs := by
  have hblank : isBlank ' ' = true := rfl
  simp [trimEnd, hblank]

theorem trimStart_of_isSolid (h : isSolid cs = true) : trimStart cs = cs := by
  obtain ⟨⟨c, hhead, hc⟩, -⟩ := isSolid_iff.1 h
  obtain ⟨rest, rfl⟩ := head?_eq_some_iff.1 hhead
  exact trimStart_cons hc rest

theorem trimEnd_of_isSolid (h : isSolid cs = true) : trimEnd cs = cs := by
  obtain ⟨-, c, hlast, hc⟩ := isSolid_iff.1 h
  obtain ⟨rest, rfl⟩ := getLast?_eq_some_iff.1 hlast
  exact trimEnd_append hc rest

theorem trim_of_isSolid (h : isSolid cs = true) : trim cs = cs := by
  rw [trim, trimStart_of_isSolid h, trimEnd_of_isSolid h]

theorem ne_nil_of_isSolid (h : isSolid cs = true) : cs ≠ [] := by
  rintro rfl
  cases h

/-- Only the two ends count. -/
theorem isSolid_append {left right : List Char} (hleft : isSolid left = true)
    (hright : isSolid right = true) (middle : List Char) :
    isSolid (left ++ middle ++ right) = true := by
  obtain ⟨⟨c, hhead, hc⟩, -⟩ := isSolid_iff.1 hleft
  obtain ⟨-, d, hlast, hd⟩ := isSolid_iff.1 hright
  refine isSolid_iff.2 ⟨⟨c, ?_, hc⟩, ⟨d, ?_, hd⟩⟩
  · rw [append_assoc, head?_append, hhead, Option.some_or]
  · rw [getLast?_append, hlast, Option.some_or]

theorem isSolid_enclosed {first last : Char} (hfirst : isBlank first = false)
    (hlast : isBlank last = false) (middle : List Char) :
    isSolid (first :: middle ++ [last]) = true :=
  isSolid_iff.2 ⟨⟨first, rfl, hfirst⟩, ⟨last, by rw [getLast?_append]; rfl, hlast⟩⟩

theorem isSolid_of_forall (hne : cs ≠ []) (h : ∀ c ∈ cs, isBlank c = false) :
    isSolid cs = true := by
  refine isSolid_iff.2 ⟨⟨cs.head hne, head?_eq_some_head hne, h _ (head_mem hne)⟩,
    ⟨cs.getLast hne, getLast?_eq_some_getLast hne, h _ (getLast_mem hne)⟩⟩

/-! ## Cutting -/

/-- A text is cut where the first character of the separator stands for the
first time. -/
theorem cutAt?_cons_append (h : s ∉ before) (sep after : List Char) :
    cutAt? (s :: sep) (before ++ (s :: sep ++ after)) = some (before, after) := by
  induction before with
  | nil =>
    have hhead : (s :: sep).isPrefixOf? (s :: (sep ++ after)) = some after :=
      isPrefixOf?_eq_some_iff_append_eq.2 rfl
    rw [nil_append, cons_append, cutAt?, hhead]
  | cons c before ih =>
    rw [mem_cons, not_or] at h
    rw [cons_append, cutAt?, ih h.2]
    simp [List.isPrefixOf?, h.1]

theorem cutAt?_cons_eq_none (h : s ∉ cs) (sep : List Char) :
    cutAt? (s :: sep) cs = none := by
  induction cs with
  | nil => rfl
  | cons c cs ih =>
    rw [mem_cons, not_or] at h
    rw [cutAt?, ih h.2]
    simp [List.isPrefixOf?, h.1]

theorem cutAt?_append (h : sep ∉ before) (after : List Char) :
    cutAt? [sep] (before ++ sep :: after) = some (before, after) :=
  cutAt?_cons_append h [] after

theorem cutAt?_eq_none (h : sep ∉ cs) : cutAt? [sep] cs = none :=
  cutAt?_cons_eq_none h []

theorem cutAtLast?_eq_none (h : sep ∉ cs) : cutAtLast? sep cs = none := by
  induction cs with
  | nil => rfl
  | cons c cs ih =>
    rw [mem_cons, not_or] at h
    rw [cutAtLast?, ih h.2]
    simp [Ne.symm h.1]

theorem cutAtLast?_append (h : sep ∉ after) (before : List Char) :
    cutAtLast? sep (before ++ sep :: after) = some (before, after) := by
  induction before with
  | nil => simp [cutAtLast?, cutAtLast?_eq_none h]
  | cons c before ih => rw [cons_append, cutAtLast?, ih]

/-- The cut is made where no further separator follows. -/
theorem cutAtLast?_eq_some_iff :
    cutAtLast? sep cs = some (before, after)
      ↔ cs = before ++ sep :: after ∧ sep ∉ after := by
  constructor
  · intro h
    have hmem : sep ∈ cs.reverse := by
      by_contra hnone
      rw [cutAtLast?_eq_none (mt mem_reverse.2 hnone)] at h
      cases h
    -- The last separator of a text is the first one from its end.
    obtain ⟨last, first, hsplit, hlast⟩ := eq_append_cons_of_mem hmem
    have hcs : cs = first.reverse ++ sep :: last.reverse := by
      rw [← reverse_reverse cs, hsplit]
      simp
    have hnone : sep ∉ last.reverse := mt mem_reverse.1 hlast
    rw [hcs, cutAtLast?_append hnone] at h
    obtain ⟨rfl, rfl⟩ := Prod.mk.inj (Option.some.inj h)
    exact ⟨hcs, hnone⟩
  · rintro ⟨rfl, hafter⟩
    exact cutAtLast?_append hafter before

theorem afterLast_append (h : sep ∉ after) (before : List Char) :
    afterLast sep (before ++ sep :: after) = after := by
  rw [afterLast, cutAtLast?_append h]

end Text

namespace Source

open Text

variable {gap path : List Char}

/-! ## Parts -/

variable {separators : List Char}

theorem isSolid_singleQuoted (body : List Char) : isSolid (singleQuoted body) = true :=
  isSolid_enclosed rfl rfl body

/-- A blank in front of a text belongs to its first segment and is trimmed
away. -/
theorem parts_space (hspace : ' ' ∉ separators) (cs : List Char) :
    parts separators (' ' :: cs) = parts separators cs := by
  have hcut : isCut separators 0 ⟨.code, ' '⟩ = false := by simp [isCut, hspace]
  have hsegments :
      segments separators (' ' :: cs) = consSegment ' ' (segments separators cs) := by
    rw [segments, marks_cons rfl (by decide), segmentsFrom_cons hcut]
    rfl
  rw [parts, parts, hsegments]
  cases segments separators cs with
  | nil => rfl
  | cons segment rest => simp [consSegment, trim_space]

/-- Members between spaces and semicolons. -/
theorem parts_members {α : Type} {text : α → List Char} {members : List α}
    (hsep : ';' ∈ separators) (hspace : ' ' ∉ separators)
    (hbalanced : ∀ x ∈ members, Balanced separators (text x))
    (hsolid : ∀ x ∈ members, isSolid (text x) = true) :
    parts separators (members.flatMap (fun x => ' ' :: text x ++ [';']) ++ [' '])
      = members.map text := by
  have hgap : Balanced separators [' '] := .plain rfl hspace
  have hsegments :
      segments separators (members.flatMap (fun x => ' ' :: text x ++ [';']) ++ [' '])
      = members.map (fun x => ' ' :: text x) ++ segments separators [' '] :=
    Balanced.segments_flatMap hsep rfl (fun x hx => hgap.append (hbalanced x hx)) [' ']
  have htrimmed : ∀ x ∈ members, trim (' ' :: text x) = text x := fun x hx => by
    rw [trim_space, trim_of_isSolid (hsolid x hx)]
  have hkept : ∀ x ∈ members, text x ≠ [] := fun x hx => ne_nil_of_isSolid (hsolid x hx)
  have hempty : trim [' '] = [] := rfl
  rw [parts, hsegments, hgap.segments_eq, map_append, map_map]
  simp only [Function.comp_def]
  rw [map_congr_left htrimmed, filter_append, filter_eq_self.2 (by simpa using hkept)]
  simp [hempty]

/-- The part in front of a separator, which a blank may precede and a blank
follows. -/
theorem parts_append (hsep : sep ∈ separators) (hplain : isPlain sep = true)
    (hspace : ' ' ∉ separators) (hgap : gap = [] ∨ gap = [' ']) {x : List Char}
    (hbalanced : Balanced separators x) (hsolid : isSolid x = true) (rest : List Char) :
    parts separators (x ++ (gap ++ [sep, ' ']) ++ rest) = x :: parts separators rest := by
  have htrim : Balanced separators gap ∧ trim (x ++ gap) = x := by
    rcases hgap with rfl | rfl
    · exact ⟨.nil, by rw [append_nil, trim_of_isSolid hsolid]⟩
    · refine ⟨.plain rfl hspace, ?_⟩
      obtain ⟨⟨c, hhead, hc⟩, -⟩ := isSolid_iff.1 hsolid
      obtain ⟨cs, rfl⟩ := head?_eq_some_iff.1 hhead
      rw [trim, cons_append, trimStart_cons hc, ← cons_append, trimEnd_space,
        trimEnd_of_isSolid hsolid]
  have hsegments : segments separators (x ++ (gap ++ [sep, ' ']) ++ rest)
      = (x ++ gap) :: segments separators (' ' :: rest) := by
    have := (hbalanced.append htrim.1).segments_append_cons hsep hplain (' ' :: rest)
    simpa using this
  rw [← parts_space hspace rest, parts, hsegments, parts, map_cons, htrim.2,
    filter_cons_of_pos (by simpa using ne_nil_of_isSolid hsolid)]

theorem Balanced.parts_eq (h : Balanced separators cs) (hsolid : isSolid cs = true) :
    parts separators cs = [cs] := by
  simp [parts, h.segments_eq, trim_of_isSolid hsolid, ne_nil_of_isSolid hsolid]

theorem parts_nil : parts separators [] = [] := by
  simp [parts, segments, segmentsFrom, trim, trimStart, trimEnd]

/-- Texts between separators are cut apart again. -/
theorem parts_intercalate (hsep : sep ∈ separators) (hplain : isPlain sep = true)
    (hspace : ' ' ∉ separators) (hgap : gap = [] ∨ gap = [' '])
    {xs : List (List Char)} (h : ∀ x ∈ xs, Balanced separators x ∧ isSolid x = true) :
    parts separators ((gap ++ [sep, ' ']).intercalate xs) = xs := by
  induction xs with
  | nil => exact parts_nil
  | cons x xs ih =>
    obtain ⟨hbalanced, hsolid⟩ := h x mem_cons_self
    cases xs with
    | nil => rw [intercalate_singleton, hbalanced.parts_eq hsolid]
    | cons y ys =>
      rw [intercalate_cons_cons, parts_append hsep hplain hspace hgap hbalanced hsolid,
        ih fun z hz => h z (mem_cons_of_mem _ hz)]

/-! ## Keys -/

/-- A character of a key that is written without quotes. -/
def isKeyChar (c : Char) : Bool :=
  isPlain c && !isBlank c && c != ':' && c != '?' && c != '.'

theorem isKeyChar_iff :
    isKeyChar c = true ↔ isPlain c = true ∧ isBlank c = false ∧ c ≠ ':'
      ∧ c ≠ '?' ∧ c ≠ '.' :=
  by
  simp [isKeyChar, and_assoc]

theorem isSuffixOf?_singleton_eq_none (h : cs.getLast? ≠ some c) :
    [c].isSuffixOf? cs = none := by
  rw [Option.eq_none_iff_forall_ne_some]
  intro before heq
  rw [isSuffixOf?_eq_some_iff_append_eq] at heq
  exact h (by rw [← heq, getLast?_append]; rfl)

section Name

variable {name : List Char} (hname : name ≠ []) (hchars : ∀ c ∈ name, isKeyChar c = true)

include hname hchars

theorem isSolid_of_isKeyChar : isSolid name = true :=
  isSolid_of_forall hname fun c hc => (isKeyChar_iff.1 (hchars c hc)).2.1

/-- A name starts with no quote, so there is none to drop. -/
theorem unquote_name : unquote name = name := by
  obtain ⟨c, cs, rfl⟩ := exists_cons_of_ne_nil hname
  have hquote := (isPlain_iff.1 (isKeyChar_iff.1 (hchars c mem_cons_self)).1).1
  rw [unquote, trim_of_isSolid (isSolid_of_isKeyChar hname hchars)]
  simp [hquote]

theorem isPlainKey_name : isPlainKey name = true := by
  have hall : ∀ c ∈ name, (c != '(' && c != '[' && c != ' ' && c != '.') = true := by
    intro c hc
    obtain ⟨hplain, hblank, -, -, hpoint⟩ := isKeyChar_iff.1 (hchars c hc)
    obtain ⟨-, -, -, hopens, -⟩ := isPlain_iff.1 hplain
    simp only [opensNesting, Bool.or_eq_false_iff, beq_eq_false_iff_ne] at hopens
    have hspace : c ≠ ' ' := by
      rintro rfl
      cases hblank
    simp [hopens, hspace, hpoint]
  rw [isPlainKey, all_eq_true.2 hall]
  simpa using hname

end Name

theorem unquote_quoted {quote : Char} (hquote : isQuote quote = true) (body : List Char) :
    unquote (quote :: (body ++ [quote])) = body := by
  have hblank : isBlank quote = false := by
    simp only [isQuote, Bool.or_eq_true, beq_iff_eq] at hquote
    rcases hquote with (rfl | rfl) | rfl <;> rfl
  rw [unquote, ← cons_append, trim_of_isSolid (isSolid_enclosed hblank hblank body)]
  simp [hquote]

theorem unquote_singleQuoted (body : List Char) : unquote (singleQuoted body) = body :=
  unquote_quoted rfl body

/-! ## Lists of literals and type arguments -/

theorem dropListBrackets_enclosed (inner : List Char) :
    dropListBrackets ('[' :: inner ++ [']']) = inner := by
  have hsuffix : [']'].isSuffixOf? (inner ++ [']']) = some inner :=
    isSuffixOf?_eq_some_iff_append_eq.2 rfl
  simp [dropListBrackets, List.isPrefixOf?, hsuffix]

/-- The literals of a list in square brackets. -/
theorem stringList_literals {bodies : List (List Char)} (hne : ∀ body ∈ bodies, body ≠ [])
    (hbody : ∀ body ∈ bodies, ∀ c ∈ body, isLiteralChar c = true) :
    stringList ('[' :: ", ".toList.intercalate (bodies.map singleQuoted) ++ [']'])
      = bodies := by
  have hparts : parts [',', '|'] (", ".toList.intercalate (bodies.map singleQuoted))
      = bodies.map singleQuoted := by
    refine parts_intercalate (by decide) rfl (by decide) (.inl rfl) fun x hx => ?_
    obtain ⟨body, hmem, rfl⟩ := mem_map.1 hx
    exact ⟨.literal (hbody body hmem), isSolid_singleQuoted body⟩
  have hunquote : (bodies.map singleQuoted).map unquote = bodies := by
    rw [map_map]
    exact (map_congr_left fun body _ => unquote_singleQuoted body).trans (map_id bodies)
  rw [stringList, trim_of_isSolid (isSolid_enclosed rfl rfl _),
    dropListBrackets_enclosed, hparts, hunquote]
  exact filter_eq_self.2 fun body hmem => by simpa using hne body hmem

theorem genericParts?_name (hsolid : isSolid path = true) (hangle : '<' ∉ path) :
    genericParts? path = some (path, []) := by
  rw [genericParts?, trim_of_isSolid hsolid, cutAt?_eq_none hangle]

theorem genericParts?_args (hsolid : isSolid path = true) (hangle : '<' ∉ path)
    {args : List (List Char)} (h : ∀ x ∈ args, Balanced [','] x ∧ isSolid x = true) :
    genericParts? (path ++ '<' :: ", ".toList.intercalate args ++ ['>'])
      = some (path, args) := by
  have htext : path ++ '<' :: ", ".toList.intercalate args ++ ['>']
      = path ++ '<' :: (", ".toList.intercalate args ++ ['>']) := by simp
  have hsuffix : ['>'].isSuffixOf? (", ".toList.intercalate args ++ ['>'])
      = some (", ".toList.intercalate args) := isSuffixOf?_eq_some_iff_append_eq.2 rfl
  have hparts : parts [','] (", ".toList.intercalate args) = args :=
    parts_intercalate (by decide) rfl (by decide) (.inl rfl) h
  have htrim : trim (path ++ '<' :: ", ".toList.intercalate args ++ ['>'])
      = path ++ '<' :: ", ".toList.intercalate args ++ ['>'] :=
    trim_of_isSolid (isSolid_append hsolid rfl _)
  rw [genericParts?, htrim, htext, cutAt?_append hangle]
  simp only [hsuffix, Option.map_some, trim_of_isSolid hsolid, hparts]

end Source

end TypedContent

import Mathlib.Data.List.DropRight
import TypedContent.Proofs.Source.Entries
import TypedContent.Proofs.Source.Objects
import TypedContent.Schema.Declaration

/-!
# Malformed fields

A field whose type cannot be read is left out. Its neighbours are read as if
it were not there, provided that its brackets match, angle brackets
included: `Matched` is necessary and sufficient (`malformed_isolated_iff`).

The attributes block is found in the body of an interface by two scans that
disagree about angle brackets. The end of the block is where the brace is
closed; the ends of the members are where a separator stands at depth zero,
and there angle brackets count. A `Place` is a position between two members
of the block, so that a member can be put there or taken away. A member that
leaves both counts as it found them is cut out as it was put in
(`Place.segments_append`), and contributes nothing when it is malformed. One
that leaves a count too high takes the members behind it along; one that
leaves it too low ends the block's own member, and the entity is lost.
-/

namespace TypedContent

open List Source Text

/-! ## Fields of a block -/

namespace Declared

/-- The field of an entry of the attributes block. -/
def entryField? (entry : List Char) : Option DeclaredField :=
  (member? entry).bind fun m => field? (String.ofList m.name) m.value

/-- The fields of an attributes block. -/
def fieldsIn (block : List Char) : List DeclaredField :=
  (members block).filterMap fun m => field? (String.ofList m.name) m.value

theorem fieldsIn_eq (block : List Char) :
    fieldsIn block = (segments memberSeparators block).filterMap fun entry =>
      entryField? (trim entry) := by
  rw [fieldsIn, members_eq, filterMap_filterMap]
  rfl

/-- The entity of an interface whose attributes block has this text. -/
def Interface.entityOf (i : Interface) (registry : Keyed String)
    (block : List Char) : DeclaredEntity :=
  { uid := (registry.find? i.name).getD (Uid.ofInterface i.name (i.kind == .component))
    kind := i.kind
    fields := fieldsIn block }

theorem Interface.entity?_eq (i : Interface) (registry : Keyed String) :
    i.entity? registry = ((memberValue? i.body "attributes".toList).bind fun value =>
      (block? '{' value).map Block.inner).map (i.entityOf registry) := by
  unfold Interface.entity?
  cases memberValue? i.body "attributes".toList with
  | none => rfl
  | some value =>
    cases hblock : block? '{' value with
    | none => simp [hblock]
    | some block => simp [hblock, Interface.entityOf, fieldsIn]

end Declared

/-! ## Members and places -/

/-- The text of one member of a block: its literals and comments are closed,
its braces, square brackets and parentheses match, and nothing cuts it. -/
structure IsMember (m : List Char) : Prop where
  closed : (marks (m ++ [';'])).getLast? = some ⟨.code, ';'⟩
  nested : nestAll? [] (marks m) = some []
  whole : segments memberSeparators m = [m]

/-- All brackets match, angle brackets included. -/
def Matched (m : List Char) : Prop :=
  level? 0 false (marks m) = some 0

instance (m : List Char) : Decidable (Matched m) :=
  inferInstanceAs (Decidable (level? 0 false (marks m) = some 0))

/-- Members with matching brackets, each with its separator. -/
structure Settled (cs : List Char) : Prop where
  nested : nestAll? [] (marks cs) = some []
  matched : Matched cs
  ended : (segments memberSeparators cs).getLast? = some []

theorem IsMember.marks_append {m : List Char} (h : IsMember m) (rest : List Char) :
    marks (m ++ ';' :: rest) = marks m ++ ⟨.code, ';'⟩ :: marks rest :=
  marks_append_cons (by decide) h.closed rest

/-- A last segment is empty only behind a separator. -/
theorem exists_of_getLast?_segmentsFrom {separators : List Char} {depth : Nat}
    {afterEquals : Bool} {ms : List Marked}
    (h : (segmentsFrom separators depth afterEquals ms).getLast? = some [])
    (hne : ms ≠ []) :
    ∃ before c, ms = before ++ [⟨.code, c⟩] ∧ c ∈ separators := by
  induction ms generalizing depth afterEquals with
  | nil => exact absurd rfl hne
  | cons m ms ih =>
    rw [segmentsFrom] at h
    by_cases hms : ms = []
    · subst hms
      split at h
      · rename_i hcut
        simp only [isCut, Bool.and_eq_true, beq_iff_eq, contains_iff_mem] at hcut
        obtain ⟨role, c⟩ := m
        obtain rfl : role = .code := hcut.1.1.1.1
        exact ⟨[], c, rfl, hcut.1.1.2⟩
      · cases h
    · have hrest : ∃ depth' afterEquals',
          (segmentsFrom separators depth' afterEquals' ms).getLast? = some [] := by
        split at h
        · refine ⟨depth, m.char == '=', ?_⟩
          cases hsegments : segmentsFrom separators depth (m.char == '=') ms with
          | nil => exact absurd hsegments (segmentsFrom_ne_nil _ _ _ _)
          | cons first rest => rwa [hsegments, getLast?_cons_cons] at h
        · refine ⟨depthAfter depth afterEquals m, m.char == '=', ?_⟩
          cases hsegments : segmentsFrom separators (depthAfter depth afterEquals m)
            (m.char == '=') ms with
          | nil => exact absurd hsegments (segmentsFrom_ne_nil _ _ _ _)
          | cons first rest =>
            rw [hsegments] at h
            cases rest with
            | nil => cases h
            | cons second rest => rwa [getLast?_cons_cons]
      obtain ⟨depth', afterEquals', hrest⟩ := hrest
      obtain ⟨before, c, rfl, hc⟩ := ih hrest hms
      exact ⟨m :: before, c, rfl, hc⟩

namespace Settled

variable {cs : List Char} (h : Settled cs)

include h

theorem exists_separator (hne : cs ≠ []) :
    ∃ before c, marks cs = before ++ [⟨.code, c⟩] ∧ c ∈ memberSeparators := by
  refine exists_of_getLast?_segmentsFrom h.ended fun hmarks => hne ?_
  rw [← unmark_marks cs, hmarks]
  rfl

theorem marks_append (rest : List Char) :
    marks (cs ++ rest) = marks cs ++ marks rest
      ∧ endsInEquals false (marks cs) = false := by
  by_cases hnil : cs = []
  · subst hnil
    exact ⟨rfl, rfl⟩
  · obtain ⟨before, c, hbefore, hc⟩ := h.exists_separator hnil
    have hsep : c ≠ '/' ∧ c ≠ '=' := by
      simp only [memberSeparators, mem_cons, not_mem_nil, or_false] at hc
      rcases hc with rfl | rfl <;> decide
    obtain ⟨left, right, rfl, hleft, hright, happend⟩ := marks_split hsep.1 hbefore
    have hnil : right = [] := by
      rw [← unmark_marks right, hright]
      rfl
    subst hnil
    constructor
    · rw [append_assoc, singleton_append, happend, hbefore, append_assoc]
      rfl
    · rw [hbefore, endsInEquals_append]
      simpa using hsep.2

theorem exists_segments : ∃ done, segments memberSeparators cs = done ++ [[]] :=
  getLast?_eq_some_iff.1 h.ended

theorem trimEnd_append (tail : List Char) :
    trimEnd (cs ++ tail) = cs ++ trimEnd tail := by
  by_cases hnil : cs = []
  · subst hnil
    rfl
  · obtain ⟨before, c, hbefore, hc⟩ := h.exists_separator hnil
    have hblank : isBlank c = false := by
      simp only [memberSeparators, mem_cons, not_mem_nil, or_false] at hc
      rcases hc with rfl | rfl <;> decide
    have hcs : cs = unmark before ++ [c] := by
      rw [← unmark_marks cs, hbefore]
      exact map_append
    rw [hcs, append_assoc, singleton_append, trimEnd_append_cons hblank, append_assoc]
    rfl

end Settled

/-- A place between two members of the attributes block in the body of an
interface. -/
structure Place where
  /-- The members before the attributes. -/
  front : List Char
  /-- The key of the attributes, up to their opening brace. -/
  key : List Char
  isOptional : Bool
  /-- What stands between the colon and the brace. -/
  lead : List Char
  /-- The members of the block before the place. -/
  before : List Char
  front_settled : Settled front
  front_other : ∀ m ∈ members front, m.name ≠ "attributes".toList
  key_whole : segments memberSeparators key = [key]
  key_matched : Matched key
  key_opened : IsOpened (key ++ ['{'])
  key_read : member? (key ++ ['{'])
    = some { name := "attributes".toList, isOptional, value := lead ++ ['{'] }
  lead_opened : IsOpened (lead ++ ['{'])
  lead_first : ⟨.code, '{'⟩ ∉ marks lead
  before_settled : Settled before

namespace Place

variable (p : Place)

/-- The body of the interface up to the place. -/
def text : List Char :=
  p.front ++ p.key ++ '{' :: p.before

/-- The attributes member up to the place. -/
def entry : List Char :=
  p.key ++ '{' :: p.before

/-- The body is cut into the members before the attributes, and the
attributes go on behind the place. -/
theorem segments_append {done : List (List Char)}
    (hdone : segments memberSeparators p.front = done ++ [[]]) (rest : List Char) :
    segments memberSeparators (p.text ++ rest)
      = done ++ p.entry.foldr consSegment
        (segmentsFrom memberSeparators 1 false (marks rest)) := by
  obtain ⟨hfront, hfrontEnd⟩ :=
    p.front_settled.marks_append (p.key ++ '{' :: (p.before ++ rest))
  obtain ⟨hbefore, hbeforeEnd⟩ := p.before_settled.marks_append rest
  have htext : p.text ++ rest = p.front ++ (p.key ++ '{' :: (p.before ++ rest)) := by
    simp [text]
  have hkey :
      segmentsFrom memberSeparators 0 false (marks p.key) = [] ++ [p.key] := p.key_whole
  have hblock :
      segmentsFrom memberSeparators 1 false (marks p.before) = [] ++ [p.before] := by
    rw [segmentsFrom_of_level? p.before_settled.matched 0, unmark_marks]
    rfl
  have hbrace : ∀ afterEquals ms,
      segmentsFrom memberSeparators 0 afterEquals (⟨.code, '{'⟩ :: ms)
      = consSegment '{' (segmentsFrom memberSeparators 1 false ms) :=
        fun afterEquals ms =>
    segmentsFrom_cons rfl afterEquals ms
  rw [segments, htext, hfront, segmentsFrom_append hdone, hfrontEnd,
    show depthThrough 0 false (marks p.front)
    = 0 from depthThrough_of_level? p.front_settled.matched 0, p.key_opened.marks_brace,
    segmentsFrom_append hkey, show depthThrough 0 false (marks p.key)
    = 0 from depthThrough_of_level? p.key_matched 0, hbrace, hbefore,
    segmentsFrom_append hblock, hbeforeEnd, show depthThrough 1 false (marks p.before)
    = 1 from depthThrough_of_level? p.before_settled.matched 1]
  simp [entry, foldr_append]

variable {p} {i : Declared.Interface} {done others : List (List Char)} {tail : List Char}

/-- The attributes member is read as such, whatever its block holds behind
the place. -/
theorem member?_entry (p : Place) (tail : List Char) :
    member? (trim (p.entry ++ tail))
      = some { name := "attributes".toList, isOptional := p.isOptional,
               value := p.lead ++ '{' :: (p.before ++ trimEnd tail) } := by
  have hblank : isBlank '{' = false := by decide
  have htrim : trim (p.entry ++ tail)
      = trimStart ((p.key ++ ['{']) ++ (p.before ++ trimEnd tail)) := by
    rw [entry, append_assoc, cons_append, trim_append_cons hblank, append_assoc,
      singleton_append, trimStart_append_cons hblank, p.before_settled.trimEnd_append]
  have hidem : trimEnd (trimEnd tail) = trimEnd tail := by
    rw [trimEnd, trimEnd, reverse_reverse, dropWhile_idempotent]
  rw [htrim, member?_trimStart, p.key_opened.member?_append p.key_read]
  simp only
  rw [append_assoc, singleton_append, trimEnd_append_cons hblank,
    p.before_settled.trimEnd_append, hidem]

theorem memberValue?_eq (hdone : segments memberSeparators p.front = done ++ [[]])
    (hbody : segments memberSeparators i.body = done ++ (p.entry ++ tail) :: others) :
    memberValue? i.body "attributes".toList
      = some (p.lead ++ '{' :: (p.before ++ trimEnd tail)) := by
  have hfront : (done.filterMap fun e => member? (trim e)).find?
      (·.name == "attributes".toList) = none := by
    rw [find?_eq_none]
    intro m hm
    have hmem : m ∈ members p.front := by
      rw [members_eq, hdone, filterMap_append]
      exact mem_append_left _ hm
    simpa using p.front_other m hmem
  rw [memberValue?, members_eq, hbody, filterMap_append, find?_append, hfront,
    filterMap_cons, p.member?_entry tail]
  simp only
  rw [find?_cons_of_pos (by simp)]
  rfl

theorem firstBlock?_append {ms : List Marked}
    (h : ⟨.code, '{'⟩ ∉ ms) (rest : List Marked) :
    (firstBlock? '{' (ms ++ ⟨.code, '{'⟩ :: rest)).map Block.inner
      = (enclosed? ['}'] rest).map Prod.fst := by
  induction ms with
  | nil =>
    cases henclosed : enclosed? ['}'] rest with
    | none => simp [firstBlock?, openedBlock?, closerOf?, henclosed]
    | some found => simp [firstBlock?, openedBlock?, closerOf?, henclosed]
  | cons m ms ih =>
    have hm : ¬ (m.role = .code ∧ m.char = '{') := by
      rintro ⟨hrole, hchar⟩
      obtain ⟨role, c⟩ := m
      obtain rfl : role = .code := hrole
      obtain rfl : c = '{' := hchar
      exact h mem_cons_self
    rw [cons_append, firstBlock?, if_neg hm,
      Option.map_map, ← ih fun hmem => h (mem_cons_of_mem _ hmem)]
    rfl

/-- The entity of an interface depends on the text behind the place, up to
where the attributes member ends. -/
theorem entity?_eq (hdone : segments memberSeparators p.front = done ++ [[]])
    (hbody : segments memberSeparators i.body = done ++ (p.entry ++ tail) :: others)
    (registry : Keyed String) :
    i.entity? registry
      = (enclosed? ['}'] (marks (trimEnd tail))).map fun found =>
        i.entityOf registry (p.before ++ found.1) := by
  have henclosed : enclosed? ['}'] (marks p.before ++ marks (trimEnd tail)) = _ :=
    enclosed?_append p.before_settled.nested '}' [] (marks (trimEnd tail))
  rw [i.entity?_eq, memberValue?_eq hdone hbody, Option.bind_some, block?,
    p.lead_opened.marks_brace, firstBlock?_append p.lead_first,
    (p.before_settled.marks_append _).1, henclosed, Option.map_map,
    Option.map_map, unmark_marks]
  rfl

end Place

/-! ## Putting a member in -/

theorem segmentsFrom_semicolon_zero (afterEquals : Bool) (ms : List Marked) :
    segmentsFrom memberSeparators 0 afterEquals (⟨.code, ';'⟩ :: ms)
      = [] :: segmentsFrom memberSeparators 0 false ms := rfl

theorem segmentsFrom_semicolon_succ (depth : Nat) (afterEquals : Bool)
    (ms : List Marked) :
    segmentsFrom memberSeparators (depth + 1) afterEquals (⟨.code, ';'⟩ :: ms)
      = consSegment ';' (segmentsFrom memberSeparators (depth + 1) false ms) := rfl

namespace IsMember

variable {m : List Char} (hm : IsMember m)

include hm

/-- No separator cuts a member, wherever the count starts. -/
theorem segmentsFrom_append (depth : Nat) (rest : List Char) :
    segmentsFrom memberSeparators depth false (marks (m ++ ';' :: rest))
      = m.foldr consSegment
        (segmentsFrom memberSeparators (depthThrough depth false (marks m))
          (endsInEquals false (marks m)) (⟨.code, ';'⟩ :: marks rest)) := by
  have hzero : segmentsFrom memberSeparators 0 false (marks m) = [unmark (marks m)] := by
    rw [unmark_marks]
    exact hm.whole
  have hwhole : segmentsFrom memberSeparators depth false (marks m) = [] ++ [m] := by
    rw [segmentsFrom_mono hzero (Nat.zero_le depth), unmark_marks]
    rfl
  rw [hm.marks_append, Source.segmentsFrom_append hwhole, nil_append]

theorem enclosed?_append (rest : List Char) :
    enclosed? ['}'] (marks (m ++ ';' :: rest))
      = (enclosed? ['}'] (marks rest)).map (extendInner (m ++ [';'])) := by
  have hmember : enclosed? ['}'] (marks m ++ ⟨.code, ';'⟩ :: marks rest) = _ :=
    Source.enclosed?_append hm.nested '}' [] (⟨.code, ';'⟩ :: marks rest)
  have hsemicolon : enclosed? ['}'] (⟨.code, ';'⟩ :: marks rest) = _ :=
    Source.enclosed?_append (show nestAll? [] [⟨.code, ';'⟩] = some [] from rfl) '}'
      [] (marks rest)
  rw [hm.marks_append, hmember, nil_append, hsemicolon,
    map_extendInner_append, unmark_marks]
  rfl

end IsMember

namespace Declared

/-- A malformed member adds no field to a block. -/
theorem fieldsIn_append {before m : List Char} (hbefore : Settled before)
    (hm : IsMember m) (hmatched : Matched m)
    (hmalformed : entryField? (trim m) = none) (rest : List Char) :
    fieldsIn (before ++ (m ++ ';' :: rest)) = fieldsIn (before ++ rest) := by
  obtain ⟨done, hdone⟩ := hbefore.exists_segments
  have hsegments : ∀ rest, segments memberSeparators (before ++ rest)
      = done ++ segments memberSeparators rest := by
    intro rest
    obtain ⟨hmarks, hequals⟩ := hbefore.marks_append rest
    rw [segments, hmarks, segmentsFrom_append hdone, hequals, show depthThrough 0 false
      (marks before) = 0 from depthThrough_of_level? hbefore.matched 0]
    rfl
  have hmember : segments memberSeparators (m ++ ';' :: rest)
      = m :: segments memberSeparators rest := by
    rw [segments, hm.segmentsFrom_append,
      show depthThrough 0 false (marks m) = 0 from depthThrough_of_level? hmatched 0,
      segmentsFrom_semicolon_zero, foldr_consSegment, append_nil]
    rfl
  rw [fieldsIn_eq, fieldsIn_eq, hsegments, hsegments, hmember, filterMap_append,
    filterMap_append, filterMap_cons, hmalformed]

end Declared

/-- A member whose brackets match leaves the place as it found it. -/
theorem Place.entity?_append (p : Place) {m : List Char} (hm : IsMember m)
    (hmatched : Matched m) (hmalformed : Declared.entryField? (trim m) = none)
    (after : List Char) (name : String) (kind : EntityKind) (registry : Keyed String) :
    Declared.Interface.entity? registry ⟨name, kind, p.text ++ (m ++ ';' :: after)⟩
      = Declared.Interface.entity? registry ⟨name, kind, p.text ++ after⟩ := by
  obtain ⟨done, hdone⟩ := p.front_settled.exists_segments
  cases hafter : segmentsFrom memberSeparators 1 false (marks after) with
  | nil => exact absurd hafter (segmentsFrom_ne_nil _ _ _ _)
  | cons tail others =>
    have hwithout : segments memberSeparators (p.text ++ after)
        = done ++ (p.entry ++ tail) :: others := by
      rw [p.segments_append hdone, hafter, foldr_consSegment]
    have hwith : segments memberSeparators (p.text ++ (m ++ ';' :: after))
        = done ++ (p.entry ++ (m ++ ';' :: tail)) :: others := by
      rw [p.segments_append hdone, hm.segmentsFrom_append,
        show depthThrough 1 false (marks m) = 0
        + 1 from depthThrough_of_level? hmatched 1, segmentsFrom_semicolon_succ, hafter]
      simp only [consSegment, foldr_consSegment]
    rw [Place.entity?_eq (i := ⟨name, kind, _⟩) hdone hwith,
      Place.entity?_eq (i := ⟨name, kind, _⟩) hdone hwithout,
      trimEnd_append_cons (by decide), hm.enclosed?_append, Option.map_map]
    congr 1
    funext found
    have hfields : Declared.fieldsIn (p.before ++ (m ++ ';' :: found.1))
        = Declared.fieldsIn (p.before ++ found.1) :=
      Declared.fieldsIn_append p.before_settled hm hmatched hmalformed found.1
    have hinner : (extendInner (m ++ [';']) found).1 = m ++ ';' :: found.1 := by
      simp [extendInner]
    simp only [Function.comp_apply, Declared.Interface.entityOf, hinner, hfields]

/-! ## A member whose brackets do not match -/

/-- The start of an attributes block. -/
def Place.start : Place where
  front := []
  key := "attributes: ".toList
  isOptional := false
  lead := []
  before := []
  front_settled := ⟨rfl, rfl, rfl⟩
  front_other := by decide
  key_whole := by decide
  key_matched := by decide
  key_opened := by decide
  key_read := by decide
  lead_opened := by decide
  lead_first := by decide
  before_settled := ⟨rfl, rfl, rfl⟩

/-- Two members. -/
def twoMembers : List Char :=
  " x: Schema.Attribute.String; y: Schema.Attribute.String; ".toList

/-- Behind a member whose brackets do not match, the attributes member ends
at once or the block is not cut. -/
theorem depthThrough_of_not_matched {m : List Char} (h : ¬ Matched m) :
    depthThrough 1 false (marks m) = 0
      ∨ ∃ outer inner, depthThrough 1 false (marks m) = outer + 1
        ∧ depthThrough 0 false (marks m) = inner + 1 := by
  cases hlevel : level? 0 false (marks m) with
  | some depth =>
    have hdepth : depth ≠ 0 := by
      rintro rfl
      exact h hlevel
    have houter := depthThrough_of_level? hlevel 1
    have hinner := depthThrough_of_level? hlevel 0
    exact .inr ⟨depth, depth - 1, houter, by rw [hinner]; omega⟩
  | none =>
    have hsame := depthThrough_of_level?_none hlevel
    by_cases hzero : depthThrough 0 false (marks m) = 0
    · exact .inl (hsame.trans hzero)
    · refine .inr ⟨depthThrough 0 false (marks m) - 1,
        depthThrough 0 false (marks m) - 1, ?_, ?_⟩
      · rw [hsame]
        omega
      · omega

/-- Above depth zero, two members are one segment. -/
theorem segmentsFrom_twoMembers (depth : Nat) {ending : List Char}
    (hending : ending = [] ∨ ending = ['}']) :
    segmentsFrom memberSeparators (depth + 1) false (marks (twoMembers ++ ending))
      = [twoMembers ++ ending] := by
  have hone : segmentsFrom memberSeparators 1 false (marks (twoMembers ++ ending))
      = [unmark (marks (twoMembers ++ ending))] := by
    rcases hending with rfl | rfl <;> decide
  rw [segmentsFrom_mono hone (by omega), unmark_marks]

section Unmatched

variable {m : List Char} (hm : IsMember m) (hnot : ¬ Matched m)

include hm hnot

/-- Two members behind one whose brackets do not match do not both come
through. -/
theorem entity?_of_not_matched (name : String) (kind : EntityKind)
    (registry : Keyed String) {e : DeclaredEntity}
    (he : Declared.Interface.entity? registry
      ⟨name, kind, Place.start.text ++ (m ++ ';' :: (twoMembers ++ ['}']))⟩
    = some e) :
    e.fields.length ≤ 1 := by
  have hdone : segments memberSeparators Place.start.front = [] ++ [[]] := rfl
  rcases depthThrough_of_not_matched hnot with houter | ⟨outer, inner, houter, hinner⟩
  · have hbody : segments memberSeparators
        (Place.start.text ++ (m ++ ';' :: (twoMembers ++ ['}'])))
        = [] ++ (Place.start.entry ++ m)
          :: segments memberSeparators (twoMembers ++ ['}']) := by
      rw [Place.start.segments_append hdone, hm.segmentsFrom_append, houter,
        segmentsFrom_semicolon_zero, foldr_consSegment, foldr_consSegment, append_nil]
      rfl
    have hnone : enclosed? ['}'] (marks (trimEnd m)) = none :=
      enclosed?_trimEnd_eq_none hm.nested '}'
    rw [Place.entity?_eq (i := ⟨name, kind, _⟩) hdone hbody, hnone] at he
    cases he
  · have hbody : segments memberSeparators
        (Place.start.text ++ (m ++ ';' :: (twoMembers ++ ['}'])))
        = [] ++ (Place.start.entry ++ (m ++ ';' :: (twoMembers ++ ['}']))) :: [] := by
      rw [Place.start.segments_append hdone, hm.segmentsFrom_append, houter,
        segmentsFrom_semicolon_succ, segmentsFrom_twoMembers outer (.inr rfl)]
      simp only [consSegment, foldr_consSegment]
    have hclosed : enclosed? ['}'] (marks (trimEnd (twoMembers ++ ['}'])))
        = some (twoMembers, []) := by
      decide
    rw [Place.entity?_eq (i := ⟨name, kind, _⟩) hdone hbody,
      trimEnd_append_cons (by decide), hm.enclosed?_append, hclosed] at he
    obtain rfl := Option.some.inj he
    have hblock : segments memberSeparators (m ++ ';' :: twoMembers)
        = [m ++ ';' :: twoMembers] := by
      have htwo := segmentsFrom_twoMembers inner (.inl rfl)
      rw [append_nil] at htwo
      rw [segments, hm.segmentsFrom_append, hinner, segmentsFrom_semicolon_succ, htwo]
      simp only [consSegment, foldr_consSegment]
    have hfields : Declared.fieldsIn (m ++ ';' :: twoMembers)
        = [m ++ ';' :: twoMembers].filterMap fun entry =>
          Declared.entryField? (trim entry) := by
      rw [Declared.fieldsIn_eq, hblock]
    have hinner : Place.start.before ++ (extendInner (m ++ [';']) (twoMembers, [])).1
        = m ++ ';' :: twoMembers := by
      simp [Place.start, extendInner]
    simp only [Declared.Interface.entityOf, hinner, hfields]
    exact List.length_filterMap_le _ _

end Unmatched

/-- **A malformed member leaves its siblings alone exactly if its brackets
match.** For a member that has no field, the entity of an interface is the
same with the member and without it, at every place of every attributes
block and whatever follows, if and only if the angle brackets of the member
match along with its other brackets. -/
theorem malformed_isolated_iff {m : List Char} (hm : IsMember m)
    (hmalformed : Declared.entryField? (trim m) = none) :
    (∀ (p : Place) (after : List Char) (name : String) (kind : EntityKind)
      (registry : Keyed String),
        Declared.Interface.entity? registry ⟨name, kind, p.text ++ (m ++ ';' :: after)⟩
          = Declared.Interface.entity? registry ⟨name, kind, p.text ++ after⟩)
      ↔ Matched m := by
  constructor
  · intro hisolated
    by_contra hnot
    have hsame := hisolated Place.start (twoMembers ++ ['}']) "Item" .collection .empty
    have htwo : (Declared.Interface.entity? .empty
        ⟨"Item", .collection, Place.start.text ++ (twoMembers ++ ['}'])⟩).map
          (·.fields.length) = some 2 := by
      decide +kernel
    obtain ⟨e, he, hlength⟩ := Option.map_eq_some_iff.1 htwo
    have hle := entity?_of_not_matched hm hnot "Item" .collection .empty (hsame.trans he)
    omega
  · intro hmatched p after name kind registry
    exact p.entity?_append hm hmatched hmalformed after name kind registry

/-- A component without the arguments it needs. -/
theorem malformed_isolated_component :
    IsMember " hero: Schema.Attribute.Component".toList
      ∧ Declared.entryField? (trim " hero: Schema.Attribute.Component".toList) = none
      ∧ ∀ (p : Place) (after : List Char) (name : String) (kind : EntityKind)
        (registry : Keyed String),
        Declared.Interface.entity? registry
            ⟨name, kind, p.text
              ++ (" hero: Schema.Attribute.Component".toList ++ ';' :: after)⟩
          = Declared.Interface.entity? registry ⟨name, kind, p.text ++ after⟩ := by
  have hm : IsMember " hero: Schema.Attribute.Component".toList :=
    ⟨by decide, by decide, by decide⟩
  have hmalformed : Declared.entryField?
      (trim " hero: Schema.Attribute.Component".toList) = none := by decide +kernel
  exact ⟨hm, hmalformed, (malformed_isolated_iff hm hmalformed).2 (by decide)⟩

/-- A relation whose arguments are not closed takes the next member
along. -/
theorem unclosed_arguments_take_sibling :
    IsMember " owner: Schema.Attribute.Relation<'manyToOne'".toList
      ∧ Declared.entryField?
        (trim " owner: Schema.Attribute.Relation<'manyToOne'".toList) = none
      ∧ (Declared.Interface.entity? .empty ⟨"ApiItemItem", .collection,
          ("attributes: \x7b owner: Schema.Attribute.Relation<'manyToOne'; title: Schema.Attribute.String; \x7d").toList⟩).map
            (·.fields.map DeclaredField.name) = some []
      ∧ (Declared.Interface.entity? .empty ⟨"ApiItemItem", .collection,
          ("attributes: \x7b title: Schema.Attribute.String; \x7d").toList⟩).map
            (·.fields.map DeclaredField.name) = some ["title"] := by
  refine ⟨⟨by decide, by decide, by decide⟩, ?_, ?_, ?_⟩
  all_goals decide +kernel

end TypedContent

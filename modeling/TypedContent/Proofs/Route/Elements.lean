import TypedContent.Proofs.Lists
import TypedContent.Proofs.Schema.MalformedFields
import TypedContent.Proofs.Source.Objects
import TypedContent.Proofs.Source.WrittenMembers
import TypedContent.Route.Module

/-!
# Elements of a routes module

A routes module exports an object with a list of routes, and its elements
are objects of any content. Each is read for itself: the descriptors of the
module are those of its elements, in order (`ReadsApart`). This holds of
every list of objects whose angle brackets match along with their other
brackets, and no wider class of objects has it (`elements_read_apart`).

Two scans meet in the list. The end of the list, and that of the module, is
where the bracket is closed, and an object closes what it opens (`Passed`).
The ends of the elements are where a comma stands at depth zero, and there
an angle bracket counts as well: so does the one of a comparison. An object
that leaves the count too high takes the objects behind it along
(`length_entries_of_unclosed`); one that leaves it too low cuts the list off
from its own key, and the module is one without a list
(`descriptors_of_cut`, `descriptors_of_overclosed`).
-/

namespace TypedContent

open List Source Text

namespace RouteModule

variable {depth : Nat} {afterEquals : Bool} {separators first : List Char}
  {elements : List (List Char)}

/-- The elements of a list, with commas between them. -/
def listText (elements : List (List Char)) : List Char :=
  ", ".toList.intercalate elements

/-- What stands in front of the list in the body of a module. -/
def listStart : List Char :=
  " routes: [".toList

/-- What stands behind it. -/
def listEnd : List Char :=
  "] ".toList

/-- What stands between the braces of a module whose list of routes has this
text. -/
def bodyText (list : List Char) : List Char :=
  listStart ++ (list ++ listEnd)

/-- A module that exports a list of routes with these elements. -/
def moduleText (elements : List (List Char)) : List Char :=
  "export default \x7b".toList ++ (bodyText (listText elements) ++ ['}'])

/-- The descriptors of such a module. -/
def descriptors (plugin : Option String) (elements : List (List Char)) :
    Except Error (List RouteDescriptor) :=
  read (String.ofList (moduleText elements)) plugin

/-- The module can be read, and its descriptors are those that its elements
have on their own, in order. -/
def ReadsApart (plugin : Option String) (elements : List (List Char)) : Prop :=
  ∃ lists, elements.mapM (fun element => descriptors plugin [element]) = .ok lists
    ∧ descriptors plugin elements = .ok lists.flatten

/-! ## The body of the module -/

/-- What is read from the body of a module. -/
def readBody (body : List Char) (plugin : Option String) :
    Except Error (List RouteDescriptor) :=
  match routeList? body with
  | none => .error .noRouteList
  | some list =>
    .ok (entries list ((memberValue? body "prefix".toList).map fun value =>
      String.ofList (unquote value)) plugin)

theorem read_eq (source : String) (plugin : Option String) :
    read source plugin = match (block? '{' (afterExport source.toList)).map
      Block.inner with
      | none => .error .noRouteModule
      | some body => readBody body plugin := by
  unfold read
  cases block? '{' (afterExport source.toList) with
  | none => rfl
  | some object => rfl

theorem listText_singleton (element : List Char) : listText [element] = element := by
  simp [listText, List.intercalate]

theorem listText_cons (element : List Char) (h : elements ≠ []) :
    listText (element :: elements) = element ++ (", ".toList ++ listText elements) := by
  obtain ⟨next, rest, rfl⟩ := exists_cons_of_ne_nil h
  simp [listText, List.intercalate]

theorem passed_comma : Passed ", ".toList where
  marks_append rest := marks_append_of_isCode rfl rest
  nested := rfl
  endsInEquals := rfl

theorem passed_listText (h : ∀ element ∈ elements, IsObject element) :
    Passed (listText elements) := by
  induction elements with
  | nil => exact .nil
  | cons element elements ih =>
    rw [forall_mem_cons] at h
    by_cases hnil : elements = []
    · rw [hnil, listText_singleton]
      exact h.1.passed
    · rw [listText_cons element hnil]
      exact h.1.passed.append (passed_comma.append (ih h.2))

theorem isCode_listStart : isCode listStart = true := by decide

theorem isCode_listEnd : isCode listEnd = true := by decide

/-- The bracket in front of the list is the one that is closed behind it. -/
theorem passed_bodyText {list : List Char} (h : Passed list) :
    Passed (bodyText list) := by
  have hmarks : ∀ rest, marks (bodyText list ++ rest) = listStart.map (Marked.mk .code)
      ++ (marks list ++ (listEnd.map (Marked.mk .code) ++ marks rest)) := by
    intro rest
    rw [bodyText, append_assoc, append_assoc, marks_append_of_isCode isCode_listStart,
      h.marks_append, marks_append_of_isCode isCode_listEnd]
  have hself := hmarks []
  rw [append_nil, marks_nil, append_nil] at hself
  have hopen : (listStart.map (Marked.mk .code)).foldlM nest? [] = some [']'] := by decide
  have hclose : (listEnd.map (Marked.mk .code)).foldlM nest? [']'] = some [] := by decide
  have hlist : (marks list).foldlM nest? [']'] = some [']'] :=
    nestAll?_append h.nested [']']
  refine ⟨fun rest => ?_, ?_, ?_⟩
  · rw [hmarks, hself, append_assoc, append_assoc]
  · rw [hself, nestAll?, foldlM_append, hopen, Option.bind_eq_bind, Option.bind_some,
      foldlM_append, hlist]
    exact hclose
  · rw [hself, endsInEquals_append_eq, endsInEquals_append_eq]
    rfl

theorem afterExport_moduleText (elements : List (List Char)) :
    afterExport (moduleText elements)
      = ' ' :: '{' :: (bodyText (listText elements) ++ ['}']) :=
  rfl

/-- The body of the module is found whatever its elements hold. -/
theorem descriptors_eq (h : ∀ element ∈ elements, IsObject element)
    (plugin : Option String) :
    descriptors plugin elements = readBody (bodyText (listText elements)) plugin := by
  have hbody := passed_bodyText (passed_listText h)
  generalize hlist : bodyText (listText elements) = body at hbody ⊢
  have hmarks : marks (body ++ ['}']) = marks body ++ [⟨.code, '}'⟩] := by
    rw [hbody.marks_append, marks_cons rfl (by decide), marks_nil]
  have hfound : enclosed? ([] ++ ['}']) (marks (body ++ ['}']))
      = some (unmark (marks body), []) :=
    (enclosed?_eq_some_iff rfl).2 ⟨_, [], hmarks, hbody.nested, rfl, rfl⟩
  rw [nil_append, unmark_marks] at hfound
  have hblock :
      (block? '{' (' ' :: '{' :: (body ++ ['}']))).map Block.inner = some body := by
    have hfirst :=
      Place.firstBlock?_append (show ⟨.code, '{'⟩ ∉ [Marked.mk .code ' '] by decide)
      (marks (body ++ ['}']))
    rw [hfound] at hfirst
    rw [block?, marks_cons rfl (by decide), marks_cons rfl (by decide)]
    exact hfirst
  rw [descriptors, read_eq, String.toList_ofList, afterExport_moduleText, hlist, hblock]

/-! ## The list in the body -/

/-- The member that the list belongs to goes on as far as the text behind
the bracket is not cut. -/
theorem segments_listStart (rest : List Char) :
    segments memberSeparators (listStart ++ rest)
      = listStart.foldr consSegment
        (segmentsFrom memberSeparators 1 false (marks rest)) := by
  have hstart : segmentsFrom memberSeparators 0 false (listStart.map (Marked.mk .code))
      = [] ++ [listStart] := by decide
  have hdepth : depthThrough 0 false (listStart.map (Marked.mk .code)) = 1 := by decide
  have hequals : endsInEquals false (listStart.map (Marked.mk .code)) = false := by decide
  rw [segments, marks_append_of_isCode isCode_listStart, segmentsFrom_append hstart,
    hdepth, hequals, nil_append]

theorem isSolid_cons_trimEnd {c : Char} (h : isBlank c = false) (cs : List Char) :
    isSolid (c :: trimEnd cs) = true := by
  refine isSolid_iff.2 ⟨⟨c, rfl, h⟩, ?_⟩
  cases hlast : (trimEnd cs).getLast? with
  | none => exact ⟨c, by rw [getLast?_cons, hlast]; rfl, h⟩
  | some last =>
    exact ⟨last, by rw [getLast?_cons, hlast]; rfl, isBlank_getLast?_trimEnd hlast⟩

theorem member?_listStart (tail : List Char) :
    member? (trim (listStart ++ tail))
      = some { name := "routes".toList, isOptional := false,
               value := '[' :: trimEnd tail } := by
  have hblank : isBlank '[' = false := by decide
  have hkey : IsKey none "routes".toList := by decide
  have htrim : trim (listStart ++ tail)
      = "routes".toList ++ ": ".toList ++ '[' :: trimEnd tail :=
    trim_append_cons hblank " routes: ".toList tail
  rw [htrim]
  exact hkey.member?_solid (isSolid_cons_trimEnd hblank tail)

theorem inner_block?_bracket (cs : List Char) :
    (block? '[' ('[' :: cs)).map Block.inner
      = (enclosed? [']'] (marks cs)).map Prod.fst := by
  rw [block?, marks_cons rfl (by decide), firstBlock?, if_pos ⟨rfl, rfl⟩]
  cases hfound : enclosed? [']'] (marks cs) with
  | none => simp [openedBlock?, closerOf?, hfound]
  | some found => simp [openedBlock?, closerOf?, hfound]

section Body

variable {rest tail : List Char} {others : List (List Char)}
  (h : segmentsFrom memberSeparators 1 false (marks rest) = tail :: others)

include h

theorem members_listStart :
    members (listStart ++ rest)
      = { name := "routes".toList, isOptional := false, value := '[' :: trimEnd tail }
        :: others.filterMap fun entry => member? (trim entry) := by
  rw [members_eq, segments_listStart, h, foldr_consSegment, filterMap_cons,
    member?_listStart]

theorem routeList?_listStart :
    routeList? (listStart ++ rest) = (enclosed? [']'] (marks (trimEnd tail))).map
      Prod.fst := by
  have hvalue : memberValue? (listStart ++ rest) "routes".toList
      = some ('[' :: trimEnd tail) := by
    rw [memberValue?, members_listStart h, find?_cons_of_pos (by simp)]
    rfl
  rw [routeList?, hvalue, ← inner_block?_bracket]
  rfl

end Body

/-- Nothing cuts the end of the body, however deep the count is. -/
theorem segmentsFrom_listEnd (depth : Nat) (afterEquals : Bool) :
    segmentsFrom memberSeparators depth afterEquals (listEnd.map (Marked.mk .code))
      = [listEnd] := by
  have hcut : ∀ depth, isCut memberSeparators depth ⟨.code, ']'⟩ = false
      ∧ isCut memberSeparators depth ⟨.code, ' '⟩ = false := by
    intro depth
    simp [isCut, memberSeparators]
  have hend : listEnd.map (Marked.mk .code) = [⟨.code, ']'⟩, ⟨.code, ' '⟩] := rfl
  rw [hend, segmentsFrom_cons (hcut depth).1, segmentsFrom_cons (hcut _).2]
  rfl

section List

variable {list : List Char} (hpassed : Passed list)

include hpassed

/-- A list that no separator cuts is read entry by entry. -/
theorem readBody_of_uncut
    (hwhole : segmentsFrom memberSeparators 1 false (marks list) = [list])
    (plugin : Option String) :
    readBody (bodyText list) plugin = .ok (entries list none plugin) := by
  have hsegments : segmentsFrom memberSeparators 1 false (marks (list ++ listEnd))
      = [list ++ listEnd] := by
    have hmarks : marks listEnd = listEnd.map (Marked.mk .code) := by decide
    have hlist :
        segmentsFrom memberSeparators 1 false (marks list) = [] ++ [list] := hwhole
    rw [hpassed.marks_append, hmarks, segmentsFrom_append hlist, segmentsFrom_listEnd,
      foldr_consSegment]
    rfl
  have hend : trimEnd (list ++ listEnd) = list ++ [']'] :=
    trimEnd_append_cons (by decide) list [' ']
  have hfound : enclosed? ([] ++ [']']) (marks (list ++ [']']))
      = some (unmark (marks list), []) :=
    (enclosed?_eq_some_iff rfl).2 ⟨_, [],
      by rw [hpassed.marks_append, marks_cons rfl (by decide), marks_nil],
      hpassed.nested, rfl, rfl⟩
  rw [nil_append, unmark_marks] at hfound
  have hprefix : memberValue? (bodyText list) "prefix".toList = none := by
    rw [memberValue?, bodyText, members_listStart hsegments]
    rfl
  have hlist : routeList? (bodyText list) = some list := by
    rw [bodyText, routeList?_listStart hsegments, hend, hfound]
    rfl
  rw [readBody, hlist, hprefix]
  rfl

end List

/-- A member that ends inside the list leaves its bracket open. -/
theorem readBody_of_cut {rest tail due : List Char} {others : List (List Char)}
    (h : segmentsFrom memberSeparators 1 false (marks rest) = tail :: others)
    (hnested : nestAll? [] (marks tail) = some due) (plugin : Option String) :
    readBody (listStart ++ rest) plugin = .error .noRouteList := by
  rw [readBody, routeList?_listStart h, enclosed?_trimEnd_eq_none hnested]
  rfl

/-! ## The elements of the list -/

/-- The descriptor of an entry of the list, with the blanks that stand
around it. -/
def entryDescriptor? (modulePrefix plugin : Option String)
    (entry : List Char) : Option RouteDescriptor := do
  let object ← block? '{' (trim entry)
  let descriptor ← descriptor? object.inner
  return { descriptor with pathPrefix := descriptor.pathPrefix.or modulePrefix, plugin }

/-- Empty entries are no objects, so it does not matter that they are
dropped. -/
theorem entries_eq (list : List Char) (modulePrefix plugin : Option String) :
    entries list modulePrefix plugin
      = (segments [','] list).filterMap (entryDescriptor? modulePrefix plugin) := by
  rw [entries, parts, filterMap_filter, filterMap_map]
  refine filterMap_congr fun entry _ => ?_
  by_cases hnil : trim entry = []
  · have hnone : block? '{' [] = none := rfl
    simp [entryDescriptor?, hnil, hnone]
  · simp [entryDescriptor?, hnil]

/-- The segments of a text, with the last one apart. -/
theorem exists_segmentsFrom_concat (separators : List Char) (depth : Nat)
    (afterEquals : Bool) (ms : List Marked) :
    ∃ done last, segmentsFrom separators depth afterEquals ms = done ++ [last] := by
  rcases eq_nil_or_concat (segmentsFrom separators depth afterEquals ms) with hnil
    | ⟨done, last, hconcat⟩
  · exact absurd hnil (segmentsFrom_ne_nil _ _ _ _)
  · exact ⟨done, last, hconcat.trans (concat_eq_append ..)⟩

theorem segments_comma {element : List Char} (hpassed : Passed element)
    (hdepth : depthThrough 0 false (marks element) = 0) (rest : List Char) :
    segments [','] (element ++ (", ".toList ++ rest))
      = segments [','] element ++ segments [','] (' ' :: rest) := by
  obtain ⟨done, last, hsegments⟩ :=
    exists_segmentsFrom_concat [','] 0 false (marks element)
  have hcomma : marks (", ".toList ++ rest) = ⟨.code, ','⟩ :: marks (' ' :: rest) :=
    marks_cons rfl (by decide) _
  have hcut : segmentsFrom [','] 0 false (⟨.code, ','⟩ :: marks (' ' :: rest))
      = [] :: segments [','] (' ' :: rest) := rfl
  rw [segments, segments, hpassed.marks_append, hcomma, segmentsFrom_append hsegments,
    hdepth, hpassed.endsInEquals, hcut, foldr_consSegment, append_nil,
    hsegments, append_assoc]
  rfl

theorem parts_comma {element : List Char} (hpassed : Passed element)
    (hdepth : depthThrough 0 false (marks element) = 0) (rest : List Char) :
    parts [','] (element ++ (", ".toList ++ rest))
      = parts [','] element ++ parts [','] rest := by
  rw [parts, segments_comma hpassed hdepth, map_append, filter_append, ← parts, ← parts,
    parts_space (by decide)]

/-- Where every element leaves the count as it found it, the entries of the
list are those of its elements. -/
theorem entries_listText
    (h : ∀ element ∈ elements, IsObject element ∧ Matched element)
    (plugin : Option String) :
    entries (listText elements) none plugin = elements.flatMap fun element =>
      entries element none plugin := by
  induction elements with
  | nil => rfl
  | cons element elements ih =>
    rw [forall_mem_cons] at h
    by_cases hnil : elements = []
    · subst hnil
      rw [listText_singleton]
      simp
    · have hdepth : depthThrough 0 false (marks element) = 0 :=
        depthThrough_of_level? h.1.2 0
      rw [listText_cons element hnil, flatMap_cons, ← ih h.2, entries,
        parts_comma h.1.1.passed hdepth, filterMap_append]
      rfl

/-! ## Elements whose brackets match -/

theorem level?_append {middle : Nat} {xs : List Marked}
    (h : level? depth afterEquals xs = some middle) (ys : List Marked) :
    level? depth afterEquals (xs ++ ys)
      = level? middle (endsInEquals afterEquals xs) ys := by
  induction xs generalizing depth afterEquals with
  | nil =>
    obtain rfl := Option.some.inj h
    rfl
  | cons x xs ih =>
    rw [level?] at h
    split at h
    · cases h
    · rename_i hcloses
      rw [cons_append, level?, if_neg hcloses]
      exact ih h

theorem matched_append {xs ys : List Char} (hpassed : Passed xs) (hxs : Matched xs)
    (hys : Matched ys) :
    Matched (xs ++ ys) := by
  rw [Matched, hpassed.marks_append, level?_append hxs, hpassed.endsInEquals]
  exact hys

theorem matched_listText (h : ∀ element ∈ elements, IsObject element ∧ Matched element) :
    Matched (listText elements) := by
  induction elements with
  | nil => rfl
  | cons element elements ih =>
    rw [forall_mem_cons] at h
    by_cases hnil : elements = []
    · rw [hnil, listText_singleton]
      exact h.1.2
    · rw [listText_cons element hnil]
      exact matched_append h.1.1.passed h.1.2
        (matched_append passed_comma (by decide) (ih h.2))

/-- Above depth zero nothing cuts a text whose brackets match. -/
theorem segmentsFrom_of_matched {text : List Char} (h : Matched text)
    (separators : List Char) (depth : Nat) :
    segmentsFrom separators (depth + 1) false (marks text) = [text] := by
  have hsegments : segmentsFrom separators (0 + depth + 1) false (marks text)
      = [unmark (marks text)] :=
    segmentsFrom_of_level? h depth
  rwa [Nat.zero_add, unmark_marks] at hsegments

theorem descriptors_of_matched
    (h : ∀ element ∈ elements, IsObject element ∧ Matched element)
    (plugin : Option String) :
    descriptors plugin elements = .ok
      (elements.flatMap fun element => entries element none plugin) := by
  have hobjects : ∀ element ∈ elements, IsObject element :=
    fun element helement => (h element helement).1
  rw [descriptors_eq hobjects, readBody_of_uncut (passed_listText hobjects)
    (segmentsFrom_of_matched (matched_listText h) memberSeparators 0), entries_listText h]

theorem readsApart_of_matched
    (h : ∀ element ∈ elements, IsObject element ∧ Matched element)
    (plugin : Option String) :
    ReadsApart plugin elements := by
  refine ⟨elements.map fun element => entries element none plugin,
    mapM_eq_ok fun element helement => ?_, ?_⟩
  · have halone : ∀ other ∈ [element], IsObject other ∧ Matched other := by
      rintro other hother
      exact mem_singleton.1 hother ▸ h element helement
    rw [descriptors_of_matched halone, flatMap_singleton]
  · rw [descriptors_of_matched h, flatMap_def]

/-! ## An element whose brackets do not match -/

/-- The first segment of a text is all of it, or it ends at a separator of
the code. -/
theorem first_of_segmentsFrom {ms : List Marked} {others : List (List Char)}
    (h : segmentsFrom separators depth afterEquals ms = first :: others) :
    (others = [] ∧ first = unmark ms)
      ∨ (others ≠ [] ∧ ∃ xs c ys, ms = xs ++ ⟨.code, c⟩ :: ys ∧ first = unmark xs
        ∧ c ∈ separators) := by
  induction ms generalizing depth afterEquals first with
  | nil =>
    obtain ⟨rfl, rfl⟩ := List.cons.inj h
    exact .inl ⟨rfl, rfl⟩
  | cons m ms ih =>
    rw [segmentsFrom] at h
    split at h
    · rename_i hcut
      obtain ⟨rfl, rfl⟩ := List.cons.inj h
      simp only [isCut, Bool.and_eq_true, beq_iff_eq, contains_iff_mem] at hcut
      obtain ⟨role, c⟩ := m
      obtain rfl : role = .code := hcut.1.1.1.1
      exact .inr ⟨segmentsFrom_ne_nil _ _ _ _, [], c, ms, rfl, rfl, hcut.1.1.2⟩
    · cases hsegments :
        segmentsFrom separators (depthAfter depth afterEquals m) (m.char == '=') ms with
      | nil => exact absurd hsegments (segmentsFrom_ne_nil _ _ _ _)
      | cons first' others' =>
        rw [hsegments] at h
        obtain ⟨rfl, rfl⟩ := List.cons.inj h
        rcases ih hsegments with ⟨rfl, rfl⟩ | ⟨hothers, xs, c, ys, rfl, rfl, hc⟩
        · exact .inl ⟨rfl, rfl⟩
        · exact .inr ⟨hothers, m :: xs, c, ys, rfl, rfl, hc⟩

/-- A route with nothing but what a route needs. -/
def plainElement : List Char :=
  "\x7b method: 'GET', path: '/', handler: 'a.list' \x7d".toList

/-- What follows an element in front of two plain ones. -/
def plainRest : List Char :=
  ", ".toList ++ listText [plainElement, plainElement]

theorem isObject_plainElement : IsObject plainElement ∧ Matched plainElement := by
  unfold plainElement
  rw [String.toList_ofList]
  decide

theorem matched_plainRest : Matched plainRest := by
  refine matched_append passed_comma (by decide) (matched_listText ?_)
  simp [isObject_plainElement]

theorem length_entries_plainElement (plugin : Option String) :
    (entries plainElement none plugin).length = 1 := by
  have hparts : parts [','] plainElement = [plainElement] := by
    unfold plainElement
    rw [String.toList_ofList]
    decide
  have hread : ((block? '{' plainElement).bind fun object => descriptor? object.inner)
      = some { method := "GET", path := "/", handler := "a.list" } := by
    unfold plainElement
    rw [String.toList_ofList]
    decide
  obtain ⟨object, hobject, hdescriptor⟩ := Option.bind_eq_some_iff.1 hread
  rw [entries, hparts]
  simp [hobject, hdescriptor]

section Unmatched

variable {element : List Char} (hobject : IsObject element) (plugin : Option String)

include hobject

theorem descriptors_beforePlain :
    descriptors plugin [element, plainElement, plainElement]
      = readBody (listStart ++ (element ++ (plainRest ++ listEnd))) plugin := by
  have hobjects : ∀ other ∈ [element, plainElement, plainElement], IsObject other := by
    have hplain := isObject_plainElement.1
    simp [hobject, hplain]
  have hlist : listText [element, plainElement, plainElement] = element ++ plainRest :=
    listText_cons element (cons_ne_nil _ _)
  rw [descriptors_eq hobjects, hlist, bodyText, append_assoc]

/-- What a cut leaves of an element closes nothing that it did not open. -/
theorem exists_nestAll?_of_segmentsFrom {others : List (List Char)}
    (hslash : '/' ∉ separators)
    (h : segmentsFrom separators depth false (marks element) = first :: others) :
    ∃ due, nestAll? [] (marks first) = some due := by
  rcases first_of_segmentsFrom h with ⟨-, rfl⟩ | ⟨-, xs, c, ys, hmarks, rfl, hc⟩
  · rw [unmark_marks]
    exact ⟨[], hobject.passed.nested⟩
  · obtain ⟨left, right, -, rfl, -, -⟩ :=
      marks_split (fun heq => hslash (heq ▸ hc)) hmarks
    have hnested := hobject.passed.nested
    rw [hmarks, nestAll?, foldlM_append] at hnested
    obtain ⟨due, hdue, -⟩ := Option.bind_eq_some_iff.1 hnested
    exact ⟨due, by rw [unmark_marks]; exact hdue⟩

/-- An element that is cut leaves the module without a list. -/
theorem descriptors_of_cut {second : List Char} {others : List (List Char)}
    (h : segmentsFrom memberSeparators 1 false (marks element)
      = first :: second :: others) :
    descriptors plugin [element, plainElement, plainElement] = .error .noRouteList := by
  obtain ⟨done, last, hconcat⟩ :=
    exists_segmentsFrom_concat memberSeparators 1 false (marks element)
  obtain ⟨done', rfl⟩ : ∃ done', done = first :: done' := by
    rw [h] at hconcat
    cases done with
    | nil => exact absurd (List.cons.inj hconcat).2 (cons_ne_nil _ _)
    | cons x done' => exact ⟨done', by rw [(List.cons.inj hconcat).1]⟩
  have hwhole := segmentsFrom_append hconcat (marks (plainRest ++ listEnd))
  rw [← hobject.passed.marks_append] at hwhole
  obtain ⟨due, hdue⟩ := exists_nestAll?_of_segmentsFrom hobject (by decide) h
  rw [descriptors_beforePlain hobject]
  exact readBody_of_cut hwhole hdue plugin

/-- An element that leaves the count too high takes all that follows
along. -/
theorem length_entries_of_unclosed
    (h : depthThrough 0 false (marks element) = depth + 1) :
    (entries (element ++ plainRest) none plugin).length
      ≤ (entries element none plugin).length + 1 := by
  obtain ⟨done, last, hsegments⟩ :=
    exists_segmentsFrom_concat [','] 0 false (marks element)
  have hrest : segments [','] (element ++ plainRest) = done ++ [last ++ plainRest] := by
    rw [segments, hobject.passed.marks_append, segmentsFrom_append hsegments, h,
      hobject.passed.endsInEquals, segmentsFrom_of_matched matched_plainRest,
      foldr_consSegment]
  have hlast :=
    List.length_filterMap_le (entryDescriptor? none plugin) [last ++ plainRest]
  rw [length_singleton] at hlast
  rw [entries_eq, entries_eq, hrest, segments, hsegments, filterMap_append,
    filterMap_append, length_append, length_append]
  omega

section Uncut

variable (hwhole : segmentsFrom memberSeparators 1 false (marks element) = [element])

include hwhole

theorem segmentsFrom_uncut (rest : List Char) :
    segmentsFrom memberSeparators 1 false (marks (element ++ rest))
      = element.foldr consSegment
          (segmentsFrom memberSeparators (depthThrough 1 false (marks element)) false
            (marks rest)) := by
  have hconcat :
      segmentsFrom memberSeparators 1 false (marks element) = [] ++ [element] := hwhole
  rw [hobject.passed.marks_append, segmentsFrom_append hconcat,
    hobject.passed.endsInEquals, nil_append]

theorem descriptors_uncut :
    descriptors plugin [element] = .ok (entries element none plugin) := by
  have hobjects : ∀ other ∈ [element], IsObject other := by simp [hobject]
  rw [descriptors_eq hobjects, listText_singleton,
    readBody_of_uncut hobject.passed hwhole]

/-- Where the count is back at zero behind the element, the comma ends the
member of the list. -/
theorem descriptors_of_overclosed (h : depthThrough 1 false (marks element) = 0) :
    descriptors plugin [element, plainElement, plainElement] = .error .noRouteList := by
  have hsegments :
      segmentsFrom memberSeparators 1 false (marks (element ++ (plainRest ++ listEnd)))
      = element :: segments memberSeparators
        (' ' :: (listText [plainElement, plainElement] ++ listEnd)) := by
    have hcomma : marks (plainRest ++ listEnd)
        = ⟨.code, ','⟩ :: marks
          (' ' :: (listText [plainElement, plainElement] ++ listEnd)) :=
      marks_cons rfl (by decide) _
    have hcut : ∀ ms, segmentsFrom memberSeparators 0 false (⟨.code, ','⟩ :: ms)
        = [] :: segmentsFrom memberSeparators 0 false ms := fun ms => rfl
    rw [segmentsFrom_uncut hobject hwhole, h, hcomma, hcut, foldr_consSegment,
      append_nil, segments]
  rw [descriptors_beforePlain hobject]
  exact readBody_of_cut hsegments hobject.passed.nested plugin

theorem descriptors_of_unclosed (h : depthThrough 1 false (marks element) = depth + 1) :
    descriptors plugin [element, plainElement, plainElement]
      = .ok (entries (element ++ plainRest) none plugin) := by
  have hsegments : segmentsFrom memberSeparators 1 false (marks (element ++ plainRest))
      = [element ++ plainRest] := by
    rw [segmentsFrom_uncut hobject hwhole, h, segmentsFrom_of_matched matched_plainRest,
      foldr_consSegment]
  have hpassed : Passed (element ++ plainRest) :=
    hobject.passed.append
      (passed_comma.append (passed_listText (by simp [isObject_plainElement.1])))
  rw [descriptors_beforePlain hobject, ← append_assoc element]
  exact readBody_of_uncut hpassed hsegments plugin

end Uncut

/-- Two routes behind an element whose brackets do not match do not both
come through. -/
theorem not_readsApart (hnot : ¬ Matched element) :
    ¬ ReadsApart plugin [element, plainElement, plainElement] := by
  rintro ⟨lists, halone, htogether⟩
  -- the element is cut, or its angle brackets end the list behind it, or
  -- they keep the list from ending there
  cases hsegments : segmentsFrom memberSeparators 1 false (marks element) with
  | nil => exact segmentsFrom_ne_nil _ _ _ _ hsegments
  | cons first others =>
    cases others with
    | cons second others =>
      rw [descriptors_of_cut hobject plugin hsegments] at htogether
      cases htogether
    | nil =>
      obtain rfl : first = element := by
        rcases first_of_segmentsFrom hsegments with ⟨-, hfirst⟩ | ⟨hne, -⟩
        · rw [hfirst, unmark_marks]
        · exact absurd rfl hne
      rcases depthThrough_of_not_matched hnot with houter | ⟨outer, inner, houter, hinner⟩
      · rw [descriptors_of_overclosed hobject plugin hsegments houter] at htogether
        cases htogether
      · have hplain : descriptors plugin [plainElement]
            = .ok (entries plainElement none plugin) :=
          descriptors_uncut isObject_plainElement.1 plugin
            (segmentsFrom_of_matched isObject_plainElement.2 memberSeparators 0)
        have heach : ∀ other ∈ [first, plainElement, plainElement],
            descriptors plugin [other] = .ok (entries other none plugin) := by
          simp [descriptors_uncut hobject plugin hsegments, hplain]
        rw [mapM_eq_ok heach] at halone
        rw [descriptors_of_unclosed hobject plugin hsegments houter, ← Except.ok.inj
          halone] at htogether
        have hlength := congrArg List.length (Except.ok.inj htogether)
        have hlost := length_entries_of_unclosed hobject plugin hinner
        have hone := length_entries_plainElement plugin
        simp only [map_cons, map_nil, flatten_cons, flatten_nil, append_nil,
          length_append] at hlength
        omega

end Unmatched

/-- **The elements of a routes module are read one by one.** A list of
objects whose angle brackets match is read, and gives what its elements give
on their own, in order. No other object can be allowed into the list: in
front of some objects with matching brackets, it changes what is read from
them or makes the module unreadable. -/
theorem elements_read_apart (plugin : Option String) :
    (∀ elements, (∀ element ∈ elements, IsObject element ∧ Matched element) →
      ReadsApart plugin elements)
      ∧ ∀ element, IsObject element → ¬ Matched element →
        ∃ after, (∀ other ∈ after, IsObject other ∧ Matched other)
          ∧ ¬ ReadsApart plugin (element :: after) := by
  constructor
  · intro elements helements
    exact readsApart_of_matched helements plugin
  · intro element hobject hnot
    refine ⟨[plainElement, plainElement], ?_, not_readsApart hobject plugin hnot⟩
    simp [isObject_plainElement]

/-- A module with a comma in a literal and an arrow in one of its routes. -/
theorem elements_read_apart_arrow :
    ReadsApart (some "shop")
      ["\x7b method: 'GET', path: '/a,b', handler: 'a.list', config: [(x) => x < 2 || x > 5] \x7d".toList,
        "\x7b method: 'PUT', path: '/:id', handler: 'a.update' \x7d".toList] := by
  refine (elements_read_apart (some "shop")).1 _ ?_
  rw [String.toList_ofList, String.toList_ofList]
  decide

/-- A route with a comparison in its settings. -/
def comparingElement : List Char :=
  "\x7b method: 'GET', path: '/a', handler: 'a.list', config: 1 < 2 \x7d".toList

/-- A comparison in the first of two routes: each is read on its own, and
the second is lost behind the first. -/
theorem comparison_takes_next_element :
    IsObject comparingElement ∧ IsObject plainElement
      ∧ (descriptors none [comparingElement]).map
        (List.map RouteDescriptor.path) = .ok ["/a"]
      ∧ (descriptors none [plainElement]).map (List.map RouteDescriptor.path) = .ok ["/"]
      ∧ (descriptors none [comparingElement, plainElement]).map
        (List.map RouteDescriptor.path) = .ok ["/a"] := by
  have hfirst : IsObject comparingElement
      ∧ segmentsFrom memberSeparators 1 false (marks comparingElement)
        = [comparingElement] := by
    unfold comparingElement
    rw [String.toList_ofList]
    decide
  have hsecond := isObject_plainElement.1
  have hobjects : ∀ element ∈ [comparingElement, plainElement], IsObject element := by
    simp [hfirst.1, hsecond]
  refine ⟨hfirst.1, hsecond, ?_, ?_, ?_⟩
  · rw [descriptors_uncut hfirst.1 none hfirst.2]
    unfold comparingElement
    rw [String.toList_ofList]
    decide +kernel
  · rw [descriptors_uncut hsecond none
      (segmentsFrom_of_matched isObject_plainElement.2 memberSeparators 0)]
    unfold plainElement
    rw [String.toList_ofList]
    decide +kernel
  · rw [descriptors_eq hobjects]
    unfold comparingElement plainElement
    rw [String.toList_ofList, String.toList_ofList]
    decide +kernel

end RouteModule

end TypedContent

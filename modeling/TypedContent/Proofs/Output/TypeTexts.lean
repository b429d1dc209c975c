import Mathlib.Data.List.Infix
import TypedContent.Compile
import TypedContent.Proofs.Naming.Characters
import TypedContent.Proofs.Output.OwnerTypes
import TypedContent.Proofs.Output.RouteAliases
import TypedContent.Proofs.Source.Keys

/-!
# Declared types in the output

The types of routes are copied from their declarations. On the way into the
types module a text becomes the right side of a declaration, the declaration
a member of a namespace, and the namespace indents what it holds line by
line. What remains of a text is `shifted`: behind each line feed two spaces
come in, unless the line is empty, and a return in front of a line feed is
lost. So a text stays as it is exactly if it has no line feed
(`shifted_eq_self_iff`). Texts are squashed before, which leaves line feeds
in literals only, and there the spaces change what the type says.

Every text of a route reaches the module in this form (`infix_typesText`),
and for every text with a line feed there is a module that does not contain
its declaration as it was given (`not_infix_typesText_bodyDescriptor`): the
name in that declaration has a letter that occurs nowhere else, which leaves
one place to look at.
-/

namespace TypedContent

open List hiding concat
open Text Source

variable {c : Char} {cs : List Char} {s : String} {slot : Slot}

/-! ## Shifted texts -/

namespace Text

variable {isLineStart : Bool} {front : List Char}

/-- A text inside an indented declaration, with a semicolon behind it: every
line behind a line break is shifted by two spaces unless it is empty, and a
return in front of a line feed is dropped. `isLineStart` tells that a line
break stands right before the text. -/
def shifted : Bool → List Char → List Char
  | false, [] => []
  | true, [] => [' ', ' ']
  | _, '\n' :: cs => '\n' :: shifted true cs
  | _, '\r' :: '\n' :: cs => '\n' :: shifted true cs
  | false, c :: cs => c :: shifted false cs
  | true, c :: cs => ' ' :: ' ' :: c :: shifted false cs

/-- The lines in a row, each indented by one step. -/
def indentLines (lines : List (List Char)) : List Char :=
  lines.flatMap fun line => (indentLine 1 line).toList

theorem toList_concat (texts : List String) :
    (concat texts).toList = texts.flatMap String.toList := by
  induction texts with
  | nil => rfl
  | cons text texts ih => rw [concat, String.toList_append, ih, flatMap_cons]

theorem toList_indent (s : String) :
    (indent 1 s).toList = indentLines (lines s.toList) := by
  rw [indent, toList_concat, flatMap_map, indentLines]

theorem toList_indentLine {line : List Char} (h : line ≠ []) :
    (indentLine 1 line).toList = ' ' :: ' ' :: line ++ ['\n'] := by
  rw [indentLine, if_neg h]
  simp [spaces]

theorem dropReturn_eq_self {line : List Char} (h : line.getLast? ≠ some '\r') :
    dropReturn line = line := by
  rw [dropReturn, isSuffixOf?_singleton_eq_none h, Option.getD_none]

theorem dropReturn_concat (line : List Char) : dropReturn (line ++ ['\r']) = line := by
  rw [dropReturn, isSuffixOf?_eq_some_iff_append_eq.2 rfl, Option.getD_some]

theorem linesFrom_feed (current cs : List Char) :
    linesFrom current ('\n' :: cs) = dropReturn current.reverse :: linesFrom [] cs := by
  rw [linesFrom, if_pos rfl]

theorem linesFrom_cons (h : c ≠ '\n') (current cs : List Char) :
    linesFrom current (c :: cs) = linesFrom (c :: current) cs := by
  rw [linesFrom, if_neg h]

/-- A line that is finished, with what follows it. -/
theorem indentLines_cons (line : List Char) (lines : List (List Char)) :
    indentLines (line :: lines)
      = (if line.isEmpty then [] else ' ' :: ' ' :: line)
        ++ '\n' :: indentLines lines := by
  rw [indentLines, flatMap_cons]
  cases line with
  | nil => rfl
  | cons c cs =>
    rw [toList_indentLine (cons_ne_nil c cs)]
    simp [indentLines]

/-- What is made of a line whose beginning is known, up to the end of the
declaration. -/
theorem indentLines_linesFrom {current : List Char}
    (hstart : current.isEmpty = isLineStart)
    (hreturn : current.head? = some '\r' → cs.head? ≠ some '\n') :
    indentLines (linesFrom current (cs ++ [';', '\n']))
      = (if isLineStart then [] else ' ' :: ' ' :: current.reverse)
        ++ (shifted isLineStart cs ++ [';', '\n']) := by
  have hend : ∀ current : List Char, indentLines (linesFrom current [';', '\n'])
      = ' ' :: ' ' :: current.reverse ++ [';', '\n'] := fun current => by
    rw [linesFrom_cons (by decide), linesFrom_feed, dropReturn_eq_self (by simp),
      linesFrom, if_pos rfl, indentLines_cons]
    simp [indentLines]
  fun_induction shifted isLineStart cs generalizing current with
  | case1 => simp [hend]
  | case2 =>
    rw [List.isEmpty_iff] at hstart
    simp [hend, hstart]
  | case3 isLineStart cs ih =>
    have hlast : current.reverse.getLast? ≠ some '\r' := by
      rw [getLast?_reverse]
      exact fun hhead => hreturn hhead rfl
    rw [cons_append, linesFrom_feed, dropReturn_eq_self hlast, indentLines_cons,
      ih rfl (by simp), isEmpty_reverse, hstart]
    simp
  | case4 isLineStart cs ih =>
    rw [cons_append, cons_append, linesFrom_cons (by decide), linesFrom_feed,
      reverse_cons, dropReturn_concat, indentLines_cons, ih rfl (by simp),
      isEmpty_reverse, hstart]
    simp
  | case5 c cs hfeed hpair ih =>
    have hnext : (c :: current).head? = some '\r' → cs.head? ≠ some '\n' := by
      rintro hc hhead
      obtain ⟨rest, rfl⟩ := head?_eq_some_iff.1 hhead
      exact hpair rest (Option.some.inj hc) rfl
    rw [cons_append, linesFrom_cons hfeed, ih rfl hnext]
    simp
  | case6 c cs hfeed hpair ih =>
    have hnext : [c].head? = some '\r' → cs.head? ≠ some '\n' := by
      rintro hc hhead
      obtain ⟨rest, rfl⟩ := head?_eq_some_iff.1 hhead
      exact hpair rest (Option.some.inj hc) rfl
    rw [List.isEmpty_iff] at hstart
    rw [hstart, cons_append, linesFrom_cons hfeed, ih rfl hnext]
    simp

theorem linesFrom_append (h : '\n' ∉ front) (current cs : List Char) :
    linesFrom current (front ++ cs) = linesFrom (front.reverse ++ current) cs := by
  induction front generalizing current with
  | nil => rfl
  | cons c front ih =>
    rw [mem_cons, not_or] at h
    rw [cons_append, linesFrom_cons (Ne.symm h.1), ih h.2, reverse_cons, append_assoc,
      singleton_append]

/-- A declared type as it stands in a namespace, from the name and the type
around an equality sign. -/
def exported (equation : List Char) : List Char :=
  "export type ".toList ++ (shifted false equation ++ [';'])

theorem exists_exported (equation : List Char) :
    ∃ front, exported equation = front ++ [';'] :=
  ⟨"export type ".toList ++ shifted false equation, (append_assoc _ _ _).symm⟩

theorem indentLines_exported (equation : List Char) :
    indentLines (lines ("export type ".toList ++ (equation ++ [';', '\n'])))
      = [' ', ' '] ++ exported equation ++ ['\n'] := by
  have hfront : ("export type ".toList.reverse ++ []).isEmpty = false := rfl
  unfold exported
  rw [lines, linesFrom_append (by decide), indentLines_linesFrom hfront (by simp),
    if_neg Bool.false_ne_true, append_nil, reverse_reverse, append_assoc,
    append_assoc, append_assoc]
  rfl

/-! ## Where a shift shows -/

theorem count_shifted (hspace : c ≠ ' ') (hreturn : c ≠ '\r') (isLineStart : Bool)
    (cs : List Char) :
    (shifted isLineStart cs).count c = cs.count c := by
  fun_induction shifted isLineStart cs with
  | case1 => rfl
  | case2 => simp [Ne.symm hspace]
  | case3 isLineStart cs ih => rw [count_cons, count_cons, ih]
  | case4 isLineStart cs ih =>
    rw [count_cons_of_ne (Ne.symm hreturn), count_cons, count_cons, ih]
  | case5 d cs _ _ ih => rw [count_cons, count_cons, ih]
  | case6 d cs _ _ ih =>
    rw [count_cons_of_ne (Ne.symm hspace), count_cons_of_ne (Ne.symm hspace), count_cons,
      count_cons, ih]

/-- The number of spaces in front of a text. -/
def leadingSpaces (cs : List Char) : Nat :=
  (cs.takeWhile (· == ' ')).length

theorem leadingSpaces_cons (c : Char) (cs : List Char) :
    leadingSpaces (c :: cs) = if c = ' ' then leadingSpaces cs + 1 else 0 := by
  rw [leadingSpaces, takeWhile_cons]
  split <;> simp_all [leadingSpaces]

theorem leadingSpaces_append (hc : c ≠ ' ') (tail : List Char) :
    leadingSpaces (cs ++ c :: tail) = leadingSpaces cs := by
  induction cs with
  | nil => rw [nil_append, leadingSpaces_cons, if_neg hc]; rfl
  | cons d cs ih => rw [cons_append, leadingSpaces_cons, leadingSpaces_cons, ih]

/-- In the middle of a line the same spaces come first. -/
theorem leadingSpaces_shifted (h : isLineStart = false) (cs : List Char) :
    leadingSpaces (shifted isLineStart cs) = leadingSpaces cs := by
  fun_induction shifted isLineStart cs with
  | case1 => rfl
  | case2 | case6 => cases h
  | case3 | case4 => rfl
  | case5 c cs _ _ ih => rw [leadingSpaces_cons, leadingSpaces_cons, ih rfl]

/-- A text at the start of a line is not what it is shifted to, not even
with the semicolon as its end. -/
theorem not_prefix_shifted_true (h : isLineStart = true) (cs tail : List Char) :
    ¬ cs ++ [';'] <+: shifted isLineStart cs ++ ';' :: tail := by
  fun_induction shifted isLineStart cs with
  | case1 | case5 => cases h
  | case2 => simp
  | case3 isLineStart cs ih =>
    rw [cons_append, cons_append, cons_prefix_cons]
    exact fun hpre => ih rfl hpre.2
  | case4 => simp
  | case6 c cs hfeed hpair ih =>
    rintro ⟨rest, hrest⟩
    have hspaces := congrArg leadingSpaces hrest
    rw [append_assoc, singleton_append, leadingSpaces_append (by decide),
      leadingSpaces_append (by decide), leadingSpaces_cons ' ', leadingSpaces_cons ' ',
      if_pos rfl, if_pos rfl, leadingSpaces_cons, leadingSpaces_cons,
      leadingSpaces_shifted rfl] at hspaces
    omega

/-- A text with a line feed is not what it is shifted to. -/
theorem not_prefix_shifted (h : isLineStart = false) (hfeed : '\n' ∈ cs)
    (tail : List Char) : ¬ cs ++ [';'] <+: shifted isLineStart cs ++ ';' :: tail := by
  fun_induction shifted isLineStart cs with
  | case1 => cases hfeed
  | case2 | case6 => cases h
  | case3 isLineStart cs ih =>
    rw [cons_append, cons_append, cons_prefix_cons]
    exact fun hpre => not_prefix_shifted_true rfl cs tail hpre.2
  | case4 => simp
  | case5 c cs hne _ ih =>
    rw [cons_append, cons_append, cons_prefix_cons]
    exact fun hpre => ih rfl (mem_of_ne_of_mem (fun h => hne h.symm) hfeed) hpre.2

theorem shifted_eq_self_iff : shifted false cs = cs ↔ '\n' ∉ cs := by
  constructor
  · intro heq hfeed
    refine not_prefix_shifted rfl hfeed [] ?_
    rw [heq]
  · intro hfeed
    induction cs with
    | nil => rfl
    | cons c cs ih =>
      rw [mem_cons, not_or] at hfeed
      rw [shifted, ih hfeed.2]
      · exact fun h => hfeed.1 h.symm
      · rintro rest - rfl
        exact hfeed.2 mem_cons_self

/-- Where a text is cut at the first of some character, there is one way to
do it. -/
theorem eq_of_append_cons_eq {front' back back' : List Char} (hfront : c ∉ front)
    (hfront' : c ∉ front') (h : front ++ c :: back = front' ++ c :: back') :
    back = back' := by
  have heq : front = front' := by
    rw [← takeWhile_ne_append hfront back, h, takeWhile_ne_append hfront']
  rw [heq] at h
  exact (List.cons.inj (append_cancel_left h)).2

/-- A declared type with a line feed is nowhere in a text as it was given,
if the letter that its name starts with is neither in front of it nor behind
it. -/
theorem not_infix_exported {rest back : List Char} (hfront : 'Z' ∉ front)
    (hback : 'Z' ∉ back) (hfeed : '\n' ∈ rest) :
    ¬ "export type ".toList ++ ('Z' :: rest ++ [';']) <:+: front
      ++ exported ('Z' :: rest) ++ back := by
  rintro ⟨before, after, h⟩
  have hkeyword : 'Z' ∉ "export type ".toList := by decide
  have hshifted : shifted false ('Z' :: rest) = 'Z' :: shifted false rest := by
    rw [shifted] <;> simp
  unfold exported at h
  rw [hshifted] at h
  -- Both texts have as many of the letter, so none is left for what stands
  -- before.
  have hcount := congrArg (List.count 'Z') h
  simp only [count_append, count_cons,
    count_shifted (show 'Z' ≠ ' ' by decide) (show 'Z' ≠ '\r' by decide),
    count_eq_zero.2 hfront, count_eq_zero.2 hback, count_eq_zero.2 hkeyword] at hcount
  have hbefore : 'Z' ∉ before := count_eq_zero.1 (by omega)
  have hletter : ∀ cs : List Char, 'Z' ∉ cs → 'Z' ∉ cs ++ "export type ".toList :=
    fun cs hcs hmem => (mem_append.1 hmem).elim hcs hkeyword
  have hsame : rest ++ ';' :: after = shifted false rest ++ ';' :: back := by
    refine eq_of_append_cons_eq (hletter before hbefore) (hletter front hfront) ?_
    simpa only [append_assoc, cons_append, nil_append] using h
  refine not_prefix_shifted rfl hfeed back ⟨after, ?_⟩
  rw [append_assoc, singleton_append, hsame]

end Text

/-! ## Texts that stay whole -/

namespace TypeScript

/-- Only blanks at the end are lost. -/
theorem infix_closeLine (hc : isBlank c = false)
    (h : cs ++ [c] <:+: s.toList) : cs ++ [c] <:+: (closeLine s).toList := by
  obtain ⟨before, after, hs⟩ := h
  refine ⟨before, trimEnd after ++ ['\n'], ?_⟩
  have hsplit : s.toList = (before ++ cs) ++ c :: after := by
    rw [← hs]
    simp
  rw [closeLine, String.toList_append, String.toList_ofList, hsplit,
    trimEnd_append_cons hc]
  simp

theorem infix_concat {text : String} {texts : List String} (h : text ∈ texts) :
    text.toList <:+: (concat texts).toList := by
  rw [toList_concat, flatMap_def]
  exact infix_of_mem_flatten (mem_map_of_mem h)

theorem infix_render_of_mem_items {m : Module} {item : Item} (hitem : item ∈ m.items)
    (hc : isBlank c = false) (h : cs ++ [c] <:+: item.render.toList) :
    cs ++ [c] <:+: m.render.toList := by
  refine infix_closeLine hc ?_
  have hconcat :=
    infix_concat (mem_map_of_mem (f := fun item : Item => item.render ++ "\n") hitem)
  rw [String.toList_append] at hconcat ⊢
  exact (h.trans (infix_append [] _ _)).trans
    (hconcat.trans (List.suffix_append _ _).isInfix)

theorem infix_renderScope {member : Declaration} {members : List Declaration}
    (h : member ∈ members) :
    (indent 1 member.render).toList <:+: (Declaration.renderScope members).toList := by
  induction members with
  | nil => cases h
  | cons first members ih =>
    rw [Declaration.renderScope, String.toList_append]
    rcases mem_cons.1 h with rfl | h
    · exact (prefix_append _ _).isInfix
    · exact (ih h).trans (List.suffix_append _ _).isInfix

theorem infix_render_scope {member : Declaration} {members : List Declaration}
    (h : member ∈ members) (head : Head) :
    (indent 1 member.render).toList <:+:
      (Declaration.scope head members).render.toList :=
  by
  rw [Declaration.render, String.toList_append, String.toList_append]
  exact (infix_renderScope h).trans (infix_append _ _ _)

end TypeScript

/-! ## Types of routes -/

open TypeScript (Declaration Item renderGroup renderHeaderLine closeLine)

/-- The name of a slot's type with the type itself. -/
def Slot.equation (slot : Slot) (action text : String) : List Char :=
  (slot.aliasName action ++ " = " ++ text).toList

theorem Slot.feed_mem_equation_iff {action text : String} :
    '\n' ∈ slot.equation action text ↔ '\n' ∈ action.toList ∨ '\n' ∈ text.toList := by
  have hsuffix : '\n' ∉ slot.suffix.toList := by cases slot <;> decide
  have hstem : '\n' ∈ Naming.pascalCase action.toList ↔ '\n' ∈ action.toList :=
    Naming.mem_pascalCase_iff (by decide) (by decide)
  rw [equation, aliasName]
  simp [hsuffix, hstem]

/-- The declaration of a text as it was given. -/
def Slot.verbatim (slot : Slot) (action text : String) : List Char :=
  "export type ".toList ++ (slot.equation action text ++ [';'])

theorem Slot.exported_eq_verbatim_iff {action text : String} :
    exported (slot.equation action text) = slot.verbatim action text
      ↔ '\n' ∉ action.toList ∧ '\n' ∉ text.toList := by
  unfold exported verbatim
  rw [append_cancel_left_eq, append_cancel_right_eq, shifted_eq_self_iff,
    feed_mem_equation_iff, not_or]

theorem Slot.toList_indent_alias (slot : Slot) (action text : String) :
    (indent 1 (Declaration.typeAlias { name := slot.aliasName action }
      (.raw text)).render).toList
      = [' ', ' '] ++ exported (slot.equation action text) ++ ['\n'] := by
  have hrender :
      (Declaration.typeAlias { name := slot.aliasName action }
        (.raw text)).render.toList
      = "export type ".toList ++ (slot.equation action text ++ [';', '\n']) := by
    simp [equation, Declaration.render, TypeScript.renderDoc,
      TypeScript.renderTypeParameters, TypeScript.TypeExpr.renderChain,
      TypeScript.TypeExpr.render]
  rw [toList_indent, hrender, indentLines_exported]

theorem infix_typesText (schema : Schema) {s : RouteSet} (hs : s.NamesTargets)
    (settings : Settings) {r : Route} (hr : r ∈ s.routes) {text : String}
    (htext : s.textOf? r.handler slot = some text) :
    exported (slot.equation r.action text) <:+:
      (generate schema s settings).typesText.toList := by
  have hitem :
      Item.declaration (.scope { name := s.namespaceName r.owner }
        (s.ownerAliases r.owner))
      ∈ (typesModule schema s (fingerprint schema s)).items :=
    mem_cons_of_mem _
      (mem_map_of_mem (mem_append_right _ (RouteSet.scope_mem_namespaces hs hr htext)))
  have hmember := TypeScript.infix_render_scope (RouteSet.mem_ownerAliases hs hr htext)
    { name := s.namespaceName r.owner }
  rw [Slot.toList_indent_alias] at hmember
  obtain ⟨front, hfront⟩ := exists_exported (slot.equation r.action text)
  rw [hfront] at hmember ⊢
  exact TypeScript.infix_render_of_mem_items hitem (by decide)
    ((infix_append _ _ _).trans hmember)

/-! ## Texts with line feeds -/

theorem fingerprint_letter (schema : Schema) (s : RouteSet) :
    'Z' ∉ (fingerprint schema s).toList := by
  have hdigit : ∀ n < 16, Nat.digitChar n ≠ 'Z' := by decide
  rw [fingerprint, Sha256.hex, String.toList_ofList, mem_flatMap]
  rintro ⟨b, -, hmem⟩
  have hb : b.toNat < 256 := b.toNat_lt
  simp only [Sha256.hexDigits, mem_cons, not_mem_nil, or_false] at hmem
  rcases hmem with hmem | hmem
  · exact hdigit _ (by omega) hmem.symm
  · exact hdigit _ (by omega) hmem.symm

theorem header_letter {hash : String} (h : 'Z' ∉ hash.toList) :
    'Z' ∉ (renderGroup ((moduleHeader hash).map renderHeaderLine)).toList := by
  have hline : ∀ line : String, 'Z' ∉ line.toList →
      'Z' ∉ (renderHeaderLine line).toList := by
    intro line hline
    unfold renderHeaderLine
    split
    · decide
    · simpa using hline
  have hfirst := hline "Generated by cms-typegen. Do not edit." (by decide)
  have hsecond := hline ("Schema hash: " ++ hash) (by simpa using h)
  simpa [moduleHeader, renderGroup, concat, hfirst] using hsecond

theorem notMem_unlines (hc : c ≠ '\n') {lines : List String}
    (h : ∀ line ∈ lines, c ∉ line.toList) :
    c ∉ (unlines lines).toList := by
  induction lines with
  | nil => exact not_mem_nil
  | cons line lines ih =>
    obtain ⟨hline, hlines⟩ := forall_mem_cons.1 h
    simp [unlines, hline, hc, ih hlines]

theorem notMem_closeLine (hc : c ≠ '\n') (h : c ∉ s.toList) :
    c ∉ (closeLine s).toList := by
  rw [closeLine, String.toList_append, String.toList_ofList, trimEnd]
  simp only [mem_append, mem_reverse, not_or]
  exact ⟨fun hmem => h (mem_reverse.1 ((dropWhile_sublist _).subset hmem)),
    by simpa using hc⟩

/-- The literals are read as the lists of characters that they are written
as. -/
theorem notMem_ofList (h : c ∉ cs) : c ∉ (String.ofList cs).toList := by
  rwa [String.toList_ofList]

theorem shared_letter : 'Z' ∉ (closeLine SharedTypes.text).toList := by
  refine notMem_closeLine (by decide) (notMem_unlines (by decide) ?_)
  simp only [SharedTypes.contentTypes, SharedTypes.filterTypes, SharedTypes.queryTypes,
    SharedTypes.answerTypes, SharedTypes.selectionTypes, cons_append, nil_append]
  repeat refine forall_mem_cons.2 ⟨notMem_ofList (by decide), ?_⟩
  exact forall_mem_nil _

/-- A route with the given type of its body. -/
def bodyDescriptor (text : String) : RouteDescriptor :=
  { method := "POST", path := "/zip", handler := "order.zip",
    types := some { body := some text } }

def bodyRoute : Route :=
  { method := "POST", path := "/zip", handler := "order.zip", controller := "order",
    action := "zip"
    params := [], plugin := none, pathPrefix := none }

/-- What the route and its type are called. -/
theorem bodyRoute_names :
    (bodyDescriptor "").route? = some bodyRoute ∧ controllerNamespace "order" = "Order"
      ∧ Slot.body.aliasName "zip" = "ZipRequest" := by
  decide

theorem route?_bodyDescriptor (text : String) :
    (bodyDescriptor text).route? = some bodyRoute := by
  have htypes : ∀ (d : RouteDescriptor) (types : Option EndpointTypes),
      RouteDescriptor.route? { d with types } = d.route? := fun _ _ => rfl
  exact (htypes (bodyDescriptor "") _).trans bodyRoute_names.1

theorem toList_closeLine_brace (h : s.toList = cs ++ ['\x7d', '\n', '\n']) :
    (closeLine s).toList = cs ++ ['\x7d', '\n'] := by
  have hblank : trimEnd ['\n', '\n'] = [] := by decide
  rw [closeLine, String.toList_append, String.toList_ofList, h,
    trimEnd_append_cons (by decide), hblank, append_assoc]
  rfl

/-- A module of a text and one declaration that ends in a brace. -/
theorem toList_render_pair {header : List String} {code : String} {d : Declaration}
    {body : List Char} (hbody : d.render.toList = body ++ ['\x7d', '\n']) :
    (TypeScript.Module.mk header [] [.raw code, .declaration d]).render.toList
      = (renderGroup (header.map renderHeaderLine)).toList
        ++ ((closeLine code).toList ++ '\n' :: body)
        ++ ['\x7d', '\n'] := by
  refine toList_closeLine_brace ?_
  simp only [map_cons, map_nil, concat, Item.render, String.toList_append, hbody]
  simp [renderGroup]

theorem routes_bodyDescriptor (text : String) :
    (RouteSet.ofDescriptors [bodyDescriptor text]).routes = [bodyRoute] := by
  rw [RouteSet.ofDescriptors, filterMap_cons_some (route?_bodyDescriptor text),
    filterMap_nil]

theorem bodyRoute_mem (text : String) :
    bodyRoute ∈ (RouteSet.ofDescriptors [bodyDescriptor text]).routes := by
  rw [routes_bodyDescriptor]
  exact mem_singleton_self bodyRoute

section

variable {text : String} (h : squash text.toList ≠ [])

include h

theorem textOf?_bodyDescriptor (slot : Slot) :
    (RouteSet.ofDescriptors [bodyDescriptor text]).textOf? bodyRoute.handler slot
      = if slot = .body then some (squashed text) else none := by
  rw [RouteSet.textOf?_ofDescriptors, findSome?_singleton, RouteDescriptor.givenText?,
    RouteDescriptor.givenTypes?, route?_bodyDescriptor]
  have hbody : EndpointTypes.squashText? text = some (squashed text) := if_neg h
  cases slot <;> simp [bodyDescriptor, EndpointTypes.squash, EndpointTypes.isEmpty,
    EndpointTypes.textFor?, hbody, EndpointTypes.get]

theorem namespaces_bodyDescriptor :
    (RouteSet.ofDescriptors [bodyDescriptor text]).namespaces
      = [.scope { name := "Order" }
        [.typeAlias { name := Slot.body.aliasName "zip" } (.raw (squashed text))]] := by
  have hroutes := routes_bodyDescriptor text
  have htext := textOf?_bodyDescriptor h
  generalize RouteSet.ofDescriptors [bodyDescriptor text] = s at hroutes htext
  have hname : s.namespaceName bodyRoute.owner = "Order" := bodyRoute_names.2.1
  have hslots :
      s.declaredSlots bodyRoute.owner = Slot.all.map fun slot => (bodyRoute, slot) := by
    rw [RouteSet.declaredSlots, RouteSet.ownedBy, hroutes]
    rfl
  have haliases : s.ownerAliases bodyRoute.owner
      = [.typeAlias { name := Slot.body.aliasName "zip" } (.raw (squashed text))] := by
    rw [RouteSet.ownerAliases_eq, hslots]
    simp [Slot.all, htext, show bodyRoute.action = "zip" from rfl]
  have howners : s.owners = [bodyRoute.owner] := by
    rw [RouteSet.owners, hroutes]
    simp [distinctBy]
  rw [RouteSet.namespaces, howners, filterMap_cons_some, filterMap_nil]
  rw [RouteSet.ownerNamespace?, haliases, hname]

/-- A module with this one declaration, whose first letter is nowhere else
in the module but in the text. -/
theorem toList_typesText_bodyDescriptor (settings : Settings) :
    ∃ front, 'Z' ∉ front ∧
      (generate ⟨[], []⟩ (RouteSet.ofDescriptors [bodyDescriptor text])
        settings).typesText.toList
        = front ++ exported (Slot.body.equation "zip" (squashed text))
          ++ ['\n', '\x7d', '\n'] := by
  have hnamespaces := namespaces_bodyDescriptor h
  have hletter :=
    header_letter (fingerprint_letter ⟨[], []⟩
      (RouteSet.ofDescriptors [bodyDescriptor text]))
  change ∃ front, 'Z' ∉ front
    ∧ (typesModule ⟨[], []⟩ _ (fingerprint ⟨[], []⟩ _)).render.toList = _
  generalize RouteSet.ofDescriptors [bodyDescriptor text] = s at hnamespaces hletter ⊢
  generalize fingerprint ⟨[], []⟩ s = hash at hletter ⊢
  have hindent := Slot.toList_indent_alias .body "zip" (squashed text)
  generalize exported (Slot.body.equation "zip" (squashed text)) = declared at hindent ⊢
  have hscope : (Declaration.scope { name := "Order" }
      [.typeAlias { name := Slot.body.aliasName "zip" }
        (.raw (squashed text))]).render.toList
        = "export namespace Order \x7b\n  ".toList ++ declared ++ ['\n']
          ++ ['\x7d', '\n'] := by
    rw [Declaration.render, Declaration.renderScope, Declaration.renderScope]
    simp [hindent, TypeScript.renderDoc]
  rw [typesModule, typeDeclarations, hnamespaces]
  refine ⟨(renderGroup ((moduleHeader hash).map renderHeaderLine)).toList
    ++ ((closeLine SharedTypes.text).toList
      ++ '\n' :: "export namespace Order \x7b\n  ".toList), ?_, ?_⟩
  · simp only [mem_append, mem_cons, not_or]
    exact ⟨hletter, shared_letter, by decide, by decide⟩
  · refine (toList_render_pair hscope).trans ?_
    simp only [append_assoc, cons_append, nil_append]

theorem not_infix_typesText_bodyDescriptor (hfeed : '\n' ∈ (squashed text).toList)
    (settings : Settings) :
    ¬ Slot.body.verbatim "zip" (squashed text)
      <:+: (generate ⟨[], []⟩ (RouteSet.ofDescriptors [bodyDescriptor text])
        settings).typesText.toList := by
  obtain ⟨front, hfront, htext⟩ := toList_typesText_bodyDescriptor h settings
  have hequation : Slot.body.equation "zip" (squashed text)
      = 'Z' :: ("ipRequest = " ++ squashed text).toList := by
    rw [Slot.equation, bodyRoute_names.2.2, String.toList_append, String.toList_append,
      String.toList_append]
    rfl
  unfold Slot.verbatim
  rw [htext, hequation]
  exact not_infix_exported hfront (by decide) (by simp [hfeed])

end

/-- Every route with this text has it declared as it is, whatever else is
generated. -/
def IsCopied (text : String) : Prop :=
  ∀ (schema : Schema) (ds : List RouteDescriptor) (settings : Settings),
    ∀ r ∈ (RouteSet.ofDescriptors ds).routes,
    ∀ slot : Slot, (RouteSet.ofDescriptors ds).textOf? r.handler slot = some text →
      '\n' ∉ r.action.toList →
      slot.verbatim r.action text <:+:
        (generate schema (RouteSet.ofDescriptors ds) settings).typesText.toList

theorem isCopied_squashed_iff (given : String) :
    IsCopied (squashed given) ↔ '\n' ∉ (squashed given).toList := by
  constructor
  · intro hcopied hfeed
    have hsome : squash given.toList ≠ [] := by
      rw [squashed, String.toList_ofList] at hfeed
      exact ne_nil_of_mem hfeed
    have htext := textOf?_bodyDescriptor hsome .body
    rw [if_pos rfl] at htext
    exact not_infix_typesText_bodyDescriptor hsome hfeed {}
      (hcopied ⟨[], []⟩ [bodyDescriptor given] {} bodyRoute
        (bodyRoute_mem given) .body htext (by decide))
  · intro hfeed schema ds settings r hr slot htext haction
    rw [← Slot.exported_eq_verbatim_iff.2 ⟨haction, hfeed⟩]
    exact infix_typesText schema (RouteSet.namesTargets_ofDescriptors _) settings hr htext

/-- **How declared types reach the types module.** Every text of a route is
declared under the name of its slot, with the lines behind line feeds
shifted. It is declared as it is exactly if neither it nor the action has a
line feed, and the texts that are declared as they are in all modules are
those without one. -/
theorem declared_texts_copied_iff (schema : Schema) (ds : List RouteDescriptor)
    (settings : Settings) (given : String) :
    (∀ r ∈ (RouteSet.ofDescriptors ds).routes, ∀ (slot : Slot) (text : String),
      (RouteSet.ofDescriptors ds).textOf? r.handler slot = some text →
        exported (slot.equation r.action text)
            <:+: (generate schema (RouteSet.ofDescriptors ds) settings).typesText.toList
          ∧ (exported (slot.equation r.action text) = slot.verbatim r.action text
            ↔ '\n' ∉ r.action.toList ∧ '\n' ∉ text.toList))
    ∧ (IsCopied (squashed given) ↔ '\n' ∉ (squashed given).toList) := by
  refine ⟨?_, isCopied_squashed_iff given⟩
  intro r hr slot text htext
  exact ⟨infix_typesText schema (RouteSet.namesTargets_ofDescriptors ds) settings hr
    htext, Slot.exported_eq_verbatim_iff⟩

theorem declared_texts_copied_in_template :
    bodyRoute ∈ (RouteSet.ofDescriptors [bodyDescriptor "`a  b`"]).routes
      ∧ (RouteSet.ofDescriptors [bodyDescriptor "`a  b`"]).textOf? bodyRoute.handler
        .body = some "`a  b`"
      ∧ Slot.body.verbatim bodyRoute.action "`a  b`"
        <:+: (generate ⟨[], []⟩ (RouteSet.ofDescriptors [bodyDescriptor "`a  b`"])
          {}).typesText.toList := by
  have hroute := bodyRoute_mem "`a  b`"
  have hsquash : squashed "`a  b`" = "`a  b`" := by decide +kernel
  have htext := @textOf?_bodyDescriptor "`a  b`" (by decide +kernel) .body
  rw [if_pos rfl, hsquash] at htext
  obtain ⟨hcontained, hverbatim⟩ :=
    (declared_texts_copied_iff ⟨[], []⟩ [bodyDescriptor "`a  b`"] {} "`a  b`").1
      bodyRoute hroute .body "`a  b`" htext
  rw [hverbatim.2 ⟨by decide, by decide⟩] at hcontained
  exact ⟨hroute, htext, hcontained⟩

/-- A template with a line feed is not declared as it is. -/
theorem template_line_shifted :
    ¬ Slot.body.verbatim "zip" "`a\nb`"
      <:+: (generate ⟨[], []⟩ (RouteSet.ofDescriptors [bodyDescriptor "`a\nb`"])
        {}).typesText.toList := by
  have hsquash : squashed "`a\nb`" = "`a\nb`" := by decide +kernel
  have hnot := @not_infix_typesText_bodyDescriptor "`a\nb`" (by decide +kernel)
    (by decide +kernel) {}
  rwa [hsquash] at hnot

end TypedContent

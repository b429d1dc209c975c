import Mathlib.Data.List.Infix
import TypedContent.Output.ClientModule
import TypedContent.Proofs.Lists
import TypedContent.Proofs.Output.PathParameters
import TypedContent.TypeScript.Printer

/-!
# Documentation comments

The interface and the class of an entity are documented by its UID, and the
method of a route by the HTTP method and the path. The text stands between
the signs of a block comment as it is given. A block comment ends at the
first asterisk with a slash behind it (`afterComment?`), so the declaration
behind the comment is read as one exactly if the text has no such pair
(`afterComment?_renderDoc_iff`).

A text put together from parts has the pair if a part has it, or if one part
ends in the asterisk and the next one starts with the slash
(`infix_pair_append`). In the text of a route this can happen in one place
only, between what stands in front of the path and the path: there a
wildcard at the end of a prefix closes the comment (`doc_comment_ends_iff`).
-/

namespace TypedContent

open List Text

/-! ## Cuts -/

/-- A text that has the separator is cut in it, whatever follows. -/
theorem exists_cutAt?_append {sep xs : List Char} (h : sep <:+: xs) (ys : List Char) :
    ∃ before after, cutAt? sep (xs ++ ys) = some (before, after)
      ∧ ys.length ≤ after.length := by
  induction xs with
  | nil =>
    obtain rfl := infix_nil.1 h
    exact ⟨[], ys, by cases ys <;> rfl, Nat.le_refl _⟩
  | cons x xs ih =>
    rw [cons_append, cutAt?]
    cases hsep : sep.isPrefixOf? (x :: (xs ++ ys)) with
    | some rest =>
      have hlength := congrArg List.length (isPrefixOf?_eq_some_iff_append_eq.1 hsep)
      have hle := h.length_le
      simp only [length_append, length_cons] at hlength hle
      exact ⟨[], rest, rfl, by omega⟩
    | none =>
      have hrest : sep <:+: xs := by
        refine (infix_cons_iff.1 h).resolve_left ?_
        rintro ⟨rest, hrest⟩
        have hprefix : sep ++ (rest ++ ys) = x :: (xs ++ ys) := by
          rw [← append_assoc, hrest, cons_append]
        rw [isPrefixOf?_eq_some_iff_append_eq.2 hprefix] at hsep
        cases hsep
      obtain ⟨before, after, hcut, hle⟩ := ih hrest
      exact ⟨x :: before, after, by rw [hcut]; rfl, hle⟩

/-! ## Block comments -/

namespace TypeScript

/-- The signs that end a block comment. -/
def commentEnd : List Char :=
  ['*', '/']

/-- What follows the block comment that a text starts with. -/
def afterComment? (cs : List Char) : Option (List Char) :=
  (Source.word? "/*" cs).bind fun body => (cutAt? commentEnd body).map Prod.snd

theorem cutAt?_commentEnd {cs : List Char} (h : ¬ commentEnd <:+: cs) (rest : List Char) :
    cutAt? commentEnd (cs ++ '*' :: '/' :: rest) = some (cs, rest) := by
  induction cs with
  | nil => rfl
  | cons c cs ih =>
    rw [infix_cons_iff, not_or] at h
    have hnone : commentEnd.isPrefixOf? (c :: (cs ++ '*' :: '/' :: rest)) = none := by
      rw [Option.eq_none_iff_forall_ne_some]
      intro more hprefix
      have hmore : '*' :: '/' :: more = c :: (cs ++ '*' :: '/' :: rest) :=
        isPrefixOf?_eq_some_iff_append_eq.1 hprefix
      obtain ⟨rfl, hbehind⟩ := List.cons.inj hmore
      cases cs with
      | nil => cases hbehind
      | cons d cs =>
        obtain ⟨rfl, -⟩ := List.cons.inj hbehind
        exact h.1 ⟨cs, rfl⟩
    rw [cons_append, cutAt?, hnone, ih h.2]
    rfl

/-- A documentation comment ends at its last two signs exactly if its text
does not end it before. -/
theorem afterComment?_renderDoc_iff (doc : String) (rest : List Char) :
    afterComment? ((renderDoc (some doc)).toList ++ rest) = some ('\n' :: rest)
      ↔ ¬ commentEnd <:+: doc.toList := by
  have htext : (renderDoc (some doc)).toList ++ rest
      = "/*".toList ++ (['*', ' '] ++ doc.toList ++ [' '] ++ '*' :: '/' :: '\n'
        :: rest) := by
    simp [renderDoc]
  have hopen : Source.word? "/*" ((renderDoc (some doc)).toList ++ rest)
      = some (['*', ' '] ++ doc.toList ++ [' '] ++ '*' :: '/' :: '\n' :: rest) := by
    rw [Source.word?, htext, isPrefixOf?_eq_some_iff_append_eq]
  have hinside : commentEnd <:+: ['*', ' '] ++ doc.toList ++ [' ']
      ↔ commentEnd <:+: doc.toList := by
    unfold commentEnd
    rw [infix_pair_append, infix_pair_append]
    have hopening : ¬ ['*', '/'] <:+: ['*', ' '] := by decide
    have hclosing : ¬ ['*', '/'] <:+: [' '] := by decide
    simp [hopening, hclosing]
  rw [afterComment?, hopen, Option.bind_some, ← hinside]
  constructor
  · intro hread hends
    obtain ⟨before, after, hcut, hle⟩ :=
      exists_cutAt?_append hends ('*' :: '/' :: '\n' :: rest)
    rw [hcut] at hread
    obtain rfl : after = '\n' :: rest := Option.some.inj hread
    simp only [length_cons] at hle
    omega
  · intro hends
    rw [cutAt?_commentEnd hends]
    rfl

/-- A declaration without its documentation comment. -/
def Declaration.undocumented : Declaration → Declaration
  | interface head bases properties =>
    interface { head with doc := none } bases properties
  | typeAlias head type => typeAlias { head with doc := none } type
  | scope head members => scope { head with doc := none } members

end TypeScript

open TypeScript (commentEnd afterComment? renderDoc)

/-! ## The places of documentation comments -/

/-- A place of the output with a documentation comment. -/
inductive DocPlace where
  | baseInterface (e : Entity)
  | standardClass (e : Entity) (routes : RouteSet)
  | routeMethod (r : Route) (routes : RouteSet)

namespace DocPlace

/-- What the comment says. -/
def doc : DocPlace → String
  | baseInterface e | standardClass e _ => e.uid
  | routeMethod r _ => r.method ++ " " ++ r.fullPath

/-- The comment and the declaration. -/
def text : DocPlace → String
  | baseInterface e => e.baseInterface.render
  | standardClass e routes => (e.standardClass routes).render
  | routeMethod r routes => (r.clientMethod routes).render

/-- The declaration alone. -/
def declaration : DocPlace → String
  | baseInterface e => e.baseInterface.undocumented.render
  | standardClass e routes =>
    { e.standardClass routes with doc := none : TypeScript.Class }.render
  | routeMethod r routes =>
    { r.clientMethod routes with doc := none : TypeScript.Method }.render

/-- No part of what the comment says ends it, nor do two parts together:
what stands in front of a path must not end in an asterisk if the path
starts with a slash. -/
def IsContained : DocPlace → Prop
  | baseInterface e | standardClass e _ => ¬ commentEnd <:+: e.uid.toList
  | routeMethod r _ =>
    ¬ commentEnd <:+: r.method.toList ∧ ¬ commentEnd <:+: r.front.toList
      ∧ ¬ commentEnd <:+: r.path.toList
      ∧ ¬ (r.front.toList.getLast? = some '*' ∧ r.path.toList.head? = some '/')

theorem text_eq (place : DocPlace) :
    place.text = renderDoc (some place.doc) ++ place.declaration := by
  cases place with
  | baseInterface e =>
    simp only [text, declaration, doc, Entity.baseInterface,
      TypeScript.Declaration.undocumented, TypeScript.Declaration.render, renderDoc,
      String.append_assoc, String.empty_append]
  | standardClass e routes =>
    simp only [text, declaration, doc, Entity.standardClass, TypeScript.Class.render,
      renderDoc, String.append_assoc, String.empty_append]
  | routeMethod r routes =>
    simp only [text, declaration, doc, Route.clientMethod, TypeScript.Method.render,
      renderDoc, String.append_assoc, String.empty_append]

theorem isContained_iff (place : DocPlace) :
    place.IsContained ↔ ¬ commentEnd <:+: place.doc.toList := by
  cases place with
  | baseInterface e => rfl
  | standardClass e routes => rfl
  | routeMethod r routes =>
    have hspace : ¬ ['*', '/'] <:+: [' '] := by decide
    have hmethod : ['*', '/'] <:+: r.method.toList ++ [' ']
        ↔ ['*', '/'] <:+: r.method.toList := by
      simp [infix_pair_append, hspace]
    have hdoc : ['*', '/'] <:+: (r.method ++ " " ++ r.fullPath).toList
        ↔ ['*', '/'] <:+: r.method.toList ∨ ['*', '/'] <:+: r.front.toList
          ∨ ['*', '/'] <:+: r.path.toList
          ∨ (r.front.toList.getLast? = some '*' ∧ r.path.toList.head? = some '/') := by
      have htext : (r.method ++ " " ++ r.fullPath).toList
          = (r.method.toList ++ [' ']) ++ (r.front.toList ++ r.path.toList) := by
        simp [r.fullPath_eq]
      rw [htext, infix_pair_append, hmethod, infix_pair_append]
      simp
    rw [doc, IsContained, commentEnd, hdoc, not_or, not_or, not_or]

end DocPlace

/-- **Where a documentation comment ends.** The comment in front of an
interface, a class or a method ends at the signs that are written behind its
text, and the declaration follows, exactly if no part of its text has an
asterisk with a slash behind it and the part in front of a path does not end
in an asterisk before a slash. -/
theorem doc_comment_ends_iff (place : DocPlace) :
    place.text = "/** " ++ place.doc ++ " */" ++ ("\n" ++ place.declaration)
      ∧ (afterComment? place.text.toList = some ("\n" ++ place.declaration).toList
        ↔ place.IsContained) := by
  have hsigns : " */\n" = " */" ++ "\n" := rfl
  have htext :
      place.text = "/** " ++ place.doc ++ " */" ++ ("\n" ++ place.declaration) := by
    rw [place.text_eq, renderDoc, hsigns]
    simp only [String.append_assoc]
  refine ⟨htext, ?_⟩
  have hread := TypeScript.afterComment?_renderDoc_iff place.doc place.declaration.toList
  rw [← String.toList_append, ← place.text_eq] at hread
  rw [place.isContained_iff, String.toList_append]
  exact hread

/-- A route with a wildcard for a segment of its path, and one with a
wildcard at the end of its prefix. -/
def wildcardRoutes : RouteSet :=
  RouteSet.ofDescriptors
    [{ method := "GET", path := "/files/*/download", handler := "file.download" },
      { method := "GET", path := "/recent", handler := "file.recent",
        pathPrefix := some "/files/*" }]

/-- The comments end inside the paths. What is left of the first line is
read as code. -/
theorem wildcard_ends_comment :
    (wildcardRoutes.routes.map fun r =>
        (afterComment? (DocPlace.routeMethod r wildcardRoutes).text.toList).map
          fun rest =>
          String.ofList (rest.takeWhile (· != '\n')))
        = [some "download */", some "recent */"]
      ∧ ∀ r ∈ wildcardRoutes.routes,
        afterComment? (DocPlace.routeMethod r wildcardRoutes).text.toList
        ≠ some ("\n" ++ (DocPlace.routeMethod r wildcardRoutes).declaration).toList := by
  simp only [DocPlace.text_eq, String.toList_append]
  refine ⟨by decide +kernel, fun r hr hread => ?_⟩
  have hdoc : ∀ r ∈ wildcardRoutes.routes,
      commentEnd <:+: (DocPlace.routeMethod r wildcardRoutes).doc.toList := by
    decide +kernel
  exact (TypeScript.afterComment?_renderDoc_iff _ _).1 hread (hdoc r hr)

end TypedContent

import TypedContent.Proofs.Lists
import TypedContent.Proofs.Schema.MalformedFields
import TypedContent.Proofs.Source.Members

/-!
# The order of modifiers

A field's type is an intersection of a constructor and modifiers. As long as
only one of its parts can give the kind, the parts may be written in any
order (`modifier_order_irrelevant`).

Parts that are closed in themselves are cut apart again where they were
joined (`parts_joined`), so that each is read on its own. Whether all of
them can be read does not depend on their order, and neither does whether
one of them is a given modifier. The part that gives the kind is looked for
in two passes, and either pass finds the only one there is
(`basePart?_eq_of_perm`).
-/

namespace TypedContent

namespace Declared

open List Source Text

/-! ## Parts of a type -/

/-- A part of a type that is closed in itself: its literals and comments are
closed, its brackets match, angle brackets included, and no ampersand cuts
it. -/
structure IsClosedPart (p : List Char) : Prop where
  closed : (marks (p ++ [' '])).getLast? = some ⟨.code, ' '⟩
  matched : Matched p
  whole : segments ['&'] p = [p]

instance (p : List Char) : Decidable (IsClosedPart p) :=
  decidable_of_iff ((marks (p ++ [' '])).getLast? = some ⟨.code, ' '⟩ ∧ Matched p
    ∧ segments ['&'] p = [p])
    ⟨fun ⟨hclosed, hmatched, hwhole⟩ => ⟨hclosed, hmatched, hwhole⟩,
      fun h => ⟨h.closed, h.matched, h.whole⟩⟩

/-- The type that consists of the parts `ps`. -/
def joined (ps : List (List Char)) : List Char :=
  " & ".toList.intercalate ps

theorem IsClosedPart.segments_append {p : List Char} (h : IsClosedPart p)
    (rest : List Char) :
    segments ['&'] (p ++ ' ' :: '&' :: rest) = (p ++ [' ']) :: segments ['&'] rest := by
  have hwhole : segmentsFrom ['&'] 0 false (marks p) = [] ++ [p] := h.whole
  have hdepth : depthThrough 0 false (marks p) = 0 := depthThrough_of_level? h.matched 0
  have hcut (afterEquals : Bool) :
      segmentsFrom ['&'] 0 afterEquals (⟨.code, ' '⟩ :: ⟨.code, '&'⟩ :: marks rest)
      = [' '] :: segments ['&'] rest := rfl
  rw [segments, marks_append_cons (by decide) h.closed, marks_cons rfl (by decide),
    segmentsFrom_append hwhole, hdepth, hcut, foldr_consSegment]
  rfl

/-- Parts that are joined are cut apart again. -/
theorem parts_joined {ps : List (List Char)} (h : ∀ p ∈ ps, IsClosedPart p) :
    parts ['&'] (joined ps) = (ps.map trim).filter (· ≠ []) := by
  induction ps with
  | nil => exact parts_nil
  | cons p ps ih =>
    rw [forall_mem_cons] at h
    cases ps with
    | nil => rw [joined, intercalate_singleton, parts, h.1.whole, map_singleton]
    | cons next ps =>
      have hjoined :
          joined (p :: next :: ps) = p ++ ' ' :: '&' :: ' ' :: joined (next :: ps) := by
        rw [joined, intercalate_cons_cons, append_assoc]
        rfl
      have hblanks : ∀ c ∈ [' '], isBlank c = true := by decide
      have hrest : parts ['&'] (' ' :: joined (next :: ps))
          = ((next :: ps).map trim).filter (· ≠ []) := by
        rw [parts_space (by decide), ih h.2]
      rw [hjoined, parts, h.1.segments_append, map_cons, trim_append_blanks hblanks,
        map_cons, filter_cons, filter_cons, ← hrest]
      rfl

/-! ## Readings -/

/-- What becomes of a field: its type is malformed, gives no kind, or gives
the field. -/
inductive Reading where
  | malformed
  | unkinded
  | field (field : DeclaredField)
deriving DecidableEq

def Reading.field? : Reading → Option DeclaredField
  | field f => some f
  | _ => none

/-- The reading of a type with these parts. -/
def readingOf (name : String) (parts : List TypePart) : Reading :=
  match basePart? parts with
  | none => .unkinded
  | some base =>
    let field : DeclaredField :=
      { name
        kind := String.ofList (base.name.toList.map Char.toLower)
        isRequired := parts.any (·.name == "Required")
        isPrivate := parts.any (·.name == "Private") }
    (withArguments? field base).elim .malformed .field

def reading (name : String) (type : List Char) : Reading :=
  ((parts ['&'] type).mapM typePart?).elim .malformed (readingOf name)

theorem field?_eq_reading (name : String) (type : List Char) :
    field? name type = (reading name type).field? := by
  rw [field?, reading]
  cases (parts ['&'] type).mapM typePart? with
  | none => rfl
  | some parts =>
    rw [Option.elim_some, readingOf]
    simp only [Option.bind_eq_bind, Option.bind_some]
    cases basePart? parts with
    | none => rfl
    | some base =>
      simp only [Option.bind_some]
      cases withArguments? _ base <;> rfl

/-! ## Order -/

/-- At most one part has a constructor, and if none has, at most one is no
modifier. -/
structure HasOneBase (parts : List TypePart) : Prop where
  constructor_unique : parts.countP (constructors.contains ·.name) ≤ 1
  other_unique : parts.countP (constructors.contains ·.name) = 0 →
    parts.countP (!modifiers.contains ·.name) ≤ 1

theorem basePart?_eq_of_perm {us vs : List TypePart} (hperm : us.Perm vs)
    (hone : HasOneBase us) :
    basePart? vs = basePart? us := by
  rw [basePart?, basePart?, find?_eq_of_perm hperm hone.constructor_unique]
  cases hfind : us.find? (constructors.contains ·.name) with
  | some base => rfl
  | none =>
    have hzero : us.countP (constructors.contains ·.name) = 0 :=
      countP_eq_zero.2 (find?_eq_none.1 hfind)
    rw [find?_eq_of_perm hperm (hone.other_unique hzero)]

theorem readingOf_eq_of_perm {us vs : List TypePart} (hperm : us.Perm vs)
    (hone : HasOneBase us) (name : String) :
    readingOf name vs = readingOf name us := by
  rw [readingOf, readingOf, basePart?_eq_of_perm hperm hone, hperm.any_eq, hperm.any_eq]

/-- The parts of a type that can be read. Blank ones do not count. -/
def readParts (ps : List (List Char)) : List TypePart :=
  ((ps.map trim).filter (· ≠ [])).filterMap typePart?

/-- **The parts of a type may be written in any order** if at most one of
them can give the kind. -/
theorem modifier_order_irrelevant (name : String) {ps qs : List (List Char)}
    (hperm : ps.Perm qs) (hclosed : ∀ p ∈ ps, IsClosedPart p)
    (hone : HasOneBase (readParts ps)) :
    reading name (joined qs) = reading name (joined ps)
      ∧ field? name (joined qs) = field? name (joined ps) := by
  have hparts : (parts ['&'] (joined ps)).Perm (parts ['&'] (joined qs)) := by
    rw [parts_joined hclosed, parts_joined fun p hp => hclosed p (hperm.mem_iff.2 hp)]
    exact (hperm.map trim).filter _
  rw [readParts, ← parts_joined hclosed] at hone
  have hreading : reading name (joined qs) = reading name (joined ps) := by
    rw [reading, reading, mapM_eq_ite, mapM_eq_ite]
    by_cases hall : ∀ part ∈ parts ['&'] (joined ps), (typePart? part).isSome
    · have hall' : ∀ part ∈ parts ['&'] (joined qs), (typePart? part).isSome :=
        fun part hpart => hall part (hparts.mem_iff.2 hpart)
      rw [if_pos hall, if_pos hall', Option.elim_some, Option.elim_some]
      exact readingOf_eq_of_perm (hparts.filterMap typePart?) hone name
    · have hall' : ¬ ∀ part ∈ parts ['&'] (joined qs), (typePart? part).isSome :=
        fun h => hall fun part hpart => h part (hparts.mem_iff.1 hpart)
      rw [if_neg hall, if_neg hall']
  exact ⟨hreading, by rw [field?_eq_reading, field?_eq_reading, hreading]⟩

/-- A relation between two modifiers, with ampersands in a literal and in a
comment. -/
def relationParts : List (List Char) :=
  ["Required", "Attribute.Relation<'manyToOne', 'r&d.shelf'>",
    "DefaultTo<\x7b f: (a, b) => a /* & */ \x7d>"].map
    String.toList

theorem modifier_order_irrelevant_relation :
    (∀ p ∈ relationParts, IsClosedPart p) ∧ HasOneBase (readParts relationParts)
      ∧ reading "shelf" (joined relationParts.reverse) = .field
        { name := "shelf", kind := "relation", isRequired := true,
          relation := some "manyToOne"
          target := some "r&d.shelf" } := by
  have hclosed : ∀ p ∈ relationParts, IsClosedPart p := by decide +kernel
  have hone : HasOneBase (readParts relationParts) :=
    ⟨by decide +kernel, by decide +kernel⟩
  refine ⟨hclosed, hone, ?_⟩
  rw [(modifier_order_irrelevant "shelf" relationParts.reverse_perm.symm hclosed hone).1]
  decide +kernel

end Declared

end TypedContent

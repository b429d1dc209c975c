import TypedContent.Keyed
import TypedContent.Source.Mark

/-!
# Types of endpoints

An endpoint has up to four types: of the request body, the response, the
path parameters and the query. They are given as TypeScript texts, and the
first text given for a slot counts.
-/

namespace TypedContent

/-- The types of an endpoint, as texts. -/
structure EndpointTypes where
  body : Option String := none
  response : Option String := none
  params : Option String := none
  query : Option String := none
deriving DecidableEq, Repr

/-- What a type of an endpoint is about. -/
inductive Slot where
  | body
  | response
  | params
  | query
deriving DecidableEq, Repr

def Slot.all : List Slot :=
  [body, response, params, query]

namespace EndpointTypes

def get (t : EndpointTypes) : Slot → Option String
  | .body => t.body
  | .response => t.response
  | .params => t.params
  | .query => t.query

/-- Types with one slot filled. -/
def single (slot : Slot) (text : String) : EndpointTypes :=
  match slot with
  | .body => { body := text }
  | .response => { response := text }
  | .params => { params := text }
  | .query => { query := text }

def isEmpty (t : EndpointTypes) : Bool :=
  t.body.isNone && t.response.isNone && t.params.isNone && t.query.isNone

/-- Fill the empty slots of `t` from `other`. -/
def fill (t other : EndpointTypes) : EndpointTypes :=
  { body := t.body.or other.body
    response := t.response.or other.response
    params := t.params.or other.params
    query := t.query.or other.query }

/-- The text in its squashed form, unless nothing is left of it. -/
def squashText? (text : String) : Option String :=
  let squashed := Source.squash text.toList
  if squashed = [] then none else some (String.ofList squashed)

/-- The types with squashed texts, without the empty ones. -/
def squash (t : EndpointTypes) : EndpointTypes :=
  { body := t.body.bind squashText?
    response := t.response.bind squashText?
    params := t.params.bind squashText?
    query := t.query.bind squashText? }

/-- The types given for each key; of several texts for a slot the first one
counts. -/
def collect (given : List (String × EndpointTypes)) : Keyed EndpointTypes :=
  given.foldl (fun m (key, types) => m.modify key {} (·.fill types)) .empty

/-! ## Laws -/

theorem get_fill (t other : EndpointTypes) (slot : Slot) :
    (t.fill other).get slot = (t.get slot).or (other.get slot) := by
  cases slot <;> rfl

theorem isEmpty_iff (t : EndpointTypes) : t.isEmpty ↔ ∀ slot, t.get slot = none := by
  constructor
  · intro h slot
    simp only [isEmpty, Bool.and_eq_true, Option.isNone_iff_eq_none] at h
    obtain ⟨⟨⟨hbody, hresponse⟩, hparams⟩, hquery⟩ := h
    cases slot <;> assumption
  · intro h
    simpa [isEmpty] using ⟨⟨⟨h .body, h .response⟩, h .params⟩, h .query⟩

end EndpointTypes

end TypedContent

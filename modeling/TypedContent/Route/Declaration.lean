import TypedContent.Naming.Words
import TypedContent.Route.Module

/-!
# Endpoint types as declaration text

The types of a module's actions are declared beside it, in one of two ways
or in both:

    export interface OrderEndpoints { pay: { body: { amount: number };
    response: { ok: boolean }; params: { id: string } }; }

    export interface RefundRequest { reason: string }
    export type RefundResponse = { refunded: boolean };

A *slot block* is a member whose value is an object with slots; its name is
the action. A declaration whose name ends in a known suffix is *folded*: it
types the request or the response of the action that the rest of the name
says. Slot blocks come before folded declarations, and otherwise the first
one counts.
-/

namespace TypedContent

namespace TypeDeclaration

/-! ## Declarations -/

inductive Keyword where
  | interface
  | typeAlias
deriving DecidableEq, Repr

/-- The keyword and the name of a declaration. -/
def header : Source.Pattern (Keyword × List Char) := fun before cs => do
  let (keyword, rest) ←
    ((Source.word? "interface" cs).map fun rest => (Keyword.interface, rest)).or
      ((Source.word? "type" cs).map fun rest => (Keyword.typeAlias, rest))
  let (name, rest) ← Source.name? (← Source.blanks? rest)
  if Text.isBoundary before cs.head? then return ((keyword, name), rest) else none

/-- The declared type, given the text behind the name: the braces of an
interface and what they hold, or what follows the equals sign of an
alias. -/
def value? (keyword : Keyword) (rest : List Char) : Option (List Char) :=
  match keyword with
  | .interface => (Source.block? '{' rest).map (·.text)
  | .typeAlias =>
    (Text.cutAt? ['='] rest).map fun (_, type) => Text.trim (Source.statement true type)

/-- The declarations of a text, with their types. -/
def all (cs : List Char) : List (List Char × List Char) :=
  (header.found cs).filterMap fun ((keyword, name), rest) =>
    ((value? keyword rest).filter (· ≠ [])).map fun value => (name, value)

/-! ## Slot blocks -/

/-- The slot that a member of a slot block fills. -/
def slot? (name : List Char) : Option Slot :=
  match String.ofList name with
  | "body" => some .body
  | "response" => some .response
  | "params" | "pathParams" => some .params
  | "query" => some .query
  | _ => none

/-- What stands between the braces of a value that starts with one. -/
def objectBody? (value : List Char) : Option (List Char) :=
  if value.head? = some '{' then (Source.block? '{' value).map (·.inner) else none

/-- The text of a slot: that of the last member which fills it. -/
def slotText? (members : List Source.Member) (slot : Slot) : Option String :=
  ((members.filter (slot? ·.name = some slot)).getLast?).map fun m =>
    String.ofList (Source.squash m.value)

/-- The types in a slot block; there are none in an object without slots. -/
def slotBlock? (value : List Char) : Option EndpointTypes := do
  let members := Source.members (← objectBody? value)
  let types : EndpointTypes :=
    { body := slotText? members .body
      response := slotText? members .response
      params := slotText? members .params
      query := slotText? members .query }
  if types.isEmpty then none else return types

/-- The slot blocks in a declared type, by action. -/
def slotBlocks (value : List Char) : List (String × EndpointTypes) :=
  match objectBody? value with
  | none => []
  | some body =>
    (Source.members body).filterMap fun m =>
      (slotBlock? m.value).map fun types => (String.ofList m.name, types)

/-! ## Folded declarations -/

/-- The suffixes of declarations that are folded, and the slot that each
stands for. -/
def suffixes : List (String × Slot) :=
  [("Request", .body), ("FormData", .body), ("Input", .body),
    ("Response", .response), ("Event", .response), ("Output", .response)]

/-- The action and the slot that a declaration of this name types. -/
def fold? (name : List Char) : Option (List Char × Slot) :=
  suffixes.findSome? fun (suffix, slot) =>
    match suffix.toList.isSuffixOf? name with
    | none | some [] => none
    | some stem => some (Naming.uncapitalize stem, slot)

def foldedTypes? (name value : List Char) : Option (String × EndpointTypes) :=
  (fold? name).map fun (action, slot) =>
    (String.ofList action, .single slot (String.ofList (Source.squash value)))

end TypeDeclaration

namespace EndpointTypes

/-- The types that a text declares, by action. -/
def ofDeclarations (source : String) : Keyed EndpointTypes :=
  let declared := TypeDeclaration.all source.toList
  collect (declared.flatMap (fun (_, value) => TypeDeclaration.slotBlocks value)
    ++ declared.filterMap fun (name, value) => TypeDeclaration.foldedTypes? name value)

end EndpointTypes

namespace RouteDescriptor

/-- Fill the empty slots of a descriptor with the types of its action. -/
def attach (types : Keyed EndpointTypes) (d : RouteDescriptor) : RouteDescriptor :=
  match d.route?.bind fun route => types.find? route.action with
  | none => d
  | some found => { d with types := some ((d.types.getD {}).fill found) }

end RouteDescriptor

namespace RouteModule

/-- Read a routes module together with the declarations beside it. -/
def readWithTypes (source : String) (types plugin : Option String) :
    Except Error (List RouteDescriptor) := do
  let descriptors ← read source plugin
  match types with
  | none => return descriptors
  | some types => return descriptors.map (·.attach (EndpointTypes.ofDeclarations types))

end RouteModule

end TypedContent

import TypedContent.Proofs.Output.ClientNames
import TypedContent.Proofs.Route.PathPieces
import TypedContent.Proofs.Source.SpacedHeaders

/-!
# Path parameters of the methods of routes

The method of a route takes its path parameters in one argument, `params`,
and puts them into the path of its request. What it declares is read off the
path of the route; what it reads is read off the whole path, with the prefix
or the plugin in front. The two agree on the route's own path: blanks around
it make no difference (`Path.params_trim`), and no parameter of its own is
lost when something is put in front of it (`Path.params_front_append`). What
is put in front can have parameters too, and these are not declared
(`path_params_declared_iff`).

A parameter ends where no name goes on. So a text can be cut there without
cutting a parameter (`Path.params_append`), which is what the results about
paths come down to.
-/

namespace TypedContent

open List Text

variable {ds : List RouteDescriptor}

/-! ## Properties that a method reads -/

namespace TypeScript

namespace Expr

def isVariable (name : String) : Expr → Bool
  | identifier other => other == name
  | _ => false

mutual

/-- The properties of a variable that an expression reads, from left to
right. -/
def reads (name : String) : Expr → List String
  | identifier _ | literal _ | raw _ => []
  | call callee _ args => reads name callee ++ readsOfExprs name args
  | object fields => readsOfFields name fields
  | member target property =>
    reads name target ++ if target.isVariable name then [property] else []
  | template pieces => readsOfPieces name pieces
  | await operand => reads name operand
  | new callee args => reads name callee ++ readsOfExprs name args

def readsOfExprs (name : String) : List Expr → List String
  | [] => []
  | expr :: exprs => reads name expr ++ readsOfExprs name exprs

def readsOfFields (name : String) : List Field → List String
  | [] => []
  | .mk _ value :: fields => reads name value ++ readsOfFields name fields

def readsOfPieces (name : String) : List TemplatePiece → List String
  | [] => []
  | .text _ :: pieces => readsOfPieces name pieces
  | .value expr :: pieces => reads name expr ++ readsOfPieces name pieces

end

end Expr

namespace Statement

mutual

/-- The properties of a variable that a statement reads, from left to
right. -/
def reads (name : String) : Statement → List String
  | const _ init => init.reads name
  | expr value => value.reads name
  | returning none => []
  | returning (some value) => value.reads name
  | tryCatch body _ handler =>
    readsOfStatements name body ++ readsOfStatements name handler
  | raw _ => []

def readsOfStatements (name : String) : List Statement → List String
  | [] => []
  | statement :: statements => reads name statement ++ readsOfStatements name statements

end

end Statement

namespace Method

/-- The path parameters that the body of a method reads. -/
def paramsRead (m : Method) : List String :=
  Statement.readsOfStatements "params" m.body

/-- The path parameters of a method are declared: a method that reads one
has a parameter for them, and where the type of this parameter is written
out, it has every property that is read, once, and no other. -/
structure DeclaresParams (m : Method) : Prop where
  declared : m.paramsRead ≠ [] → ∃ p ∈ m.implementation.parameters, p.name = "params"
  exact : ∀ p ∈ m.implementation.parameters,
    p.name = "params" → ∀ properties, p.type = some (.object properties) →
    (properties.map Property.name).Nodup ∧ ∀ x, x ∈ properties.map Property.name
      ↔ x ∈ m.paramsRead

end Method

end TypeScript

open TypeScript (Expr Statement Parameter Property Method)

theorem reads_pathTemplate (path : String) :
    (pathTemplate path).reads "params" = (Path.params path.toList).map String.ofList := by
  have hpieces : ∀ pieces : List PathPiece,
      Expr.readsOfPieces "params" (pieces.map PathPiece.template)
      = (pieces.filterMap PathPiece.param?).map String.ofList := by
    intro pieces
    induction pieces with
    | nil => rfl
    | cons piece pieces ih =>
      cases piece with
      | literal text => exact ih
      | param name => exact congrArg (String.ofList name :: ·) ih
  unfold pathTemplate
  split
  · rename_i hnone
    rw [hnone]
    rfl
  · rw [Expr.reads, hpieces, Path.params_eq, Path.pieces]

namespace Route

variable (r : Route) (routes : RouteSet)

/-- What stands in front of the path of a route. -/
def front (r : Route) : String :=
  match r.pathPrefix, r.plugin with
  | some start, _ => start
  | none, some plugin => "/" ++ plugin
  | none, none => ""

theorem fullPath_eq : r.fullPath = r.front ++ r.path := by
  unfold fullPath front
  cases r.pathPrefix <;> cases r.plugin <;> simp

/-- The parameters that start in front of the path; the last of them may go
on in the path. -/
def frontParams (r : Route) : List String :=
  (Path.params (r.front.toList ++ r.path.toList.takeWhile isWord)).map String.ofList

theorem paramsRead_clientMethod :
    (r.clientMethod routes).paramsRead
      = (Path.params r.fullPath.toList).map String.ofList := by
  have hoptions : Expr.readsOfFields "params" r.requestOptions = [] := by
    unfold requestOptions
    split <;> rfl
  have hnonempty : r.requestOptions.isEmpty = false := by
    unfold requestOptions
    split <;> rfl
  have hrequest :
      (r.clientMethod routes).paramsRead = (pathTemplate r.fullPath).reads "params"
      ++ Expr.readsOfFields "params" r.requestOptions := by
    simp [clientMethod, asyncMethod, Method.paramsRead, Statement.readsOfStatements,
      Statement.reads, request, hnonempty, Expr.reads, Expr.readsOfExprs, Expr.this,
      Expr.text, Expr.isVariable]
  rw [hrequest, hoptions, append_nil, reads_pathTemplate]

/-- The parameter for the path parameters is there if the path of the route
has some. -/
theorem mem_methodParameters_params {p : Parameter} :
    p ∈ r.methodParameters routes ∧ p.name = "params"
      ↔ r.params ≠ [] ∧ p = .required "params"
        ((r.declaredType? routes .params).getD r.pathParamsType) := by
  unfold methodParameters
  constructor
  · rintro ⟨hp, hname⟩
    simp only [mem_append, mem_singleton] at hp
    rcases hp with (hp | hp) | rfl
    · split at hp
      · cases hp
      · rename_i hparams
        exact ⟨fun hnil => hparams (by rw [hnil]; rfl), mem_singleton.1 hp⟩
    · split at hp
      · rw [mem_singleton.1 hp] at hname
        have hbody : "body" = "params" := hname
        exact absurd hbody (by decide)
      · cases hp
    · have hquery : "query" = "params" := hname
      exact absurd hquery (by decide)
  · rintro ⟨hparams, rfl⟩
    have hnonempty : ¬ r.params.isEmpty = true :=
      fun hempty => hparams (List.isEmpty_iff.1 hempty)
    rw [if_neg hnonempty]
    exact ⟨mem_append_left _ (mem_append_left _ (mem_singleton.2 rfl)), rfl⟩

/-- A method declares its path parameters if those of the path are the ones
it reads. -/
theorem declaresParams_clientMethod_iff :
    (r.clientMethod routes).DeclaresParams
      ↔ ((r.clientMethod routes).paramsRead ≠ [] → r.params ≠ [])
        ∧ (r.params ≠ [] → r.declaredType? routes .params = none →
          r.params.Nodup ∧ ∀ x, x ∈ r.params
            ↔ x ∈ (r.clientMethod routes).paramsRead) := by
  have hparameters : (r.clientMethod routes).implementation.parameters
      = r.methodParameters routes := rfl
  have hnames : (r.params.map fun name => Property.required name idType).map
      Property.name = r.params := by
    simp [Property.required, Property.name, Function.comp_def]
  constructor
  · rintro ⟨hdeclared, hexact⟩
    rw [hparameters] at hdeclared hexact
    refine ⟨fun hread => ?_, fun hparams hnone => ?_⟩
    · obtain ⟨p, hp⟩ := hdeclared hread
      exact ((r.mem_methodParameters_params routes).1 hp).1
    · obtain ⟨hp, hname⟩ := (r.mem_methodParameters_params routes).2 ⟨hparams, rfl⟩
      rw [hnone, Option.getD_none] at hp
      have hproperties := hexact _ hp hname _ rfl
      rwa [hnames] at hproperties
  · rintro ⟨hdeclared, hexact⟩
    refine ⟨fun hread => ?_, fun p hp hname properties hobject => ?_⟩
    · exact ⟨_, (r.mem_methodParameters_params routes).2 ⟨hdeclared hread, rfl⟩⟩
    · obtain ⟨hparams, rfl⟩ := (r.mem_methodParameters_params routes).1 ⟨hp, hname⟩
      have htype := Option.some.inj hobject
      cases hslot : r.declaredType? routes .params with
      | some type =>
        rw [hslot, Option.getD_some, r.eq_ref_of_declaredType? routes hslot] at htype
        cases htype
      | none =>
        rw [hslot, Option.getD_none] at htype
        cases htype
        rw [hnames]
        exact hexact hparams hslot

end Route

/-- A route of some descriptors has the parameters of its own path. -/
theorem RouteSet.params_of_mem {r : Route} (hr : r ∈ (RouteSet.ofDescriptors ds).routes) :
    r.params = (Path.params r.path.toList).map String.ofList := by
  obtain ⟨d, -, hd⟩ := mem_filterMap.1 hr
  obtain ⟨target, -, rfl⟩ := Option.map_eq_some_iff.1 hd
  simp only [String.toList_ofList, Path.params_trim]

theorem RouteSet.paramsRead_of_mem {r : Route}
    (hr : r ∈ (RouteSet.ofDescriptors ds).routes) (routes : RouteSet) :
    (r.clientMethod routes).paramsRead = r.frontParams ++ r.params := by
  rw [r.paramsRead_clientMethod, r.fullPath_eq, String.toList_append,
    Path.params_front_append, map_append, params_of_mem hr, Route.frontParams]

/-- What no colon stands in adds no parameters. -/
theorem Route.frontParams_eq_nil {r : Route} (h : ':' ∉ r.front.toList) :
    r.frontParams = [] := by
  have hcolon : ':' ∉ r.front.toList ++ r.path.toList.takeWhile isWord := by
    rw [mem_append, not_or]
    exact ⟨h, fun hmem => absurd (mem_takeWhile_imp hmem) (by decide)⟩
  rw [frontParams, ← append_nil (_ ++ _), Path.params_append_of_not_mem hcolon]
  rfl

/-- The method of a route reads the parameters of the whole path, and
declares those of the route's own path. -/
theorem RouteSet.declaresParams_iff_of_mem {r : Route}
    (hr : r ∈ (RouteSet.ofDescriptors ds).routes) (routes : RouteSet) :
    (r.clientMethod routes).DeclaresParams
      ↔ (r.frontParams ≠ [] → r.params ≠ [])
        ∧ (r.declaredType? routes .params = none →
          r.params.Nodup ∧ r.frontParams ⊆ r.params) := by
  rw [r.declaresParams_clientMethod_iff, paramsRead_of_mem hr]
  constructor
  · rintro ⟨hdeclared, hexact⟩
    have hfront : r.frontParams ≠ [] → r.params ≠ [] := fun hne =>
      hdeclared (append_ne_nil_of_left_ne_nil hne _)
    refine ⟨hfront, fun hnone => ?_⟩
    by_cases hparams : r.params = []
    · have hnil : r.frontParams = [] := by
        by_contra hne
        exact hfront hne hparams
      rw [hparams, hnil]
      exact ⟨nodup_nil, List.Subset.refl _⟩
    · obtain ⟨hnodup, hsame⟩ := hexact hparams hnone
      exact ⟨hnodup, fun x hx => (hsame x).2 (mem_append_left _ hx)⟩
  · rintro ⟨hfront, hloose⟩
    refine ⟨fun hread hparams => ?_, fun hparams hnone => ?_⟩
    · rw [hparams, append_nil] at hread
      exact hfront hread hparams
    · obtain ⟨hnodup, hsubset⟩ := hloose hnone
      refine ⟨hnodup, fun x => ⟨mem_append_right _, fun hx => ?_⟩⟩
      rcases mem_append.1 hx with hx | hx
      · exact hsubset hx
      · exact hx

/-- **When the path parameters of a method are declared.** The method of a
route declares the parameters that it reads exactly if the route's own path
has a parameter whenever the part in front of it has one, and, unless their
type is given with the route, the own path repeats no parameter and has
those of the part in front as well. So it does when no colon stands in front
of the own path and no parameter is repeated. -/
theorem path_params_declared_iff {ds : List RouteDescriptor} {r : Route}
    (hr : r ∈ (RouteSet.ofDescriptors ds).routes) :
    ((r.clientMethod (.ofDescriptors ds)).DeclaresParams
      ↔ (r.frontParams ≠ [] → r.params ≠ [])
        ∧ (r.declaredType? (.ofDescriptors ds) .params = none →
          r.params.Nodup ∧ r.frontParams ⊆ r.params))
      ∧ (':' ∉ r.front.toList → r.params.Nodup →
        (r.clientMethod (.ofDescriptors ds)).DeclaresParams) := by
  refine ⟨RouteSet.declaresParams_iff_of_mem hr _, fun hcolon hnodup => ?_⟩
  rw [RouteSet.declaresParams_iff_of_mem hr, Route.frontParams_eq_nil hcolon]
  exact ⟨fun hne => absurd rfl hne, fun _ => ⟨hnodup, nil_subset _⟩⟩

/-- An order of a shop, where the prefix names the shop and the path names
it again. -/
def shopOrder : RouteDescriptor :=
  { method := "get", path := " /:shop/orders/:id ", handler := "order.one",
    pathPrefix := some "/shops/:shop" }

def shopOrderRoute : Route :=
  { method := "GET", path := "/:shop/orders/:id", handler := "order.one",
    controller := "order"
    action := "one", params := ["shop", "id"], plugin := none, pathPrefix :=
      some "/shops/:shop" }

theorem path_params_declared_shop :
    shopOrderRoute ∈ (RouteSet.ofDescriptors [shopOrder]).routes
      ∧ shopOrderRoute.frontParams = ["shop"]
      ∧ (shopOrderRoute.clientMethod (.ofDescriptors [shopOrder])).DeclaresParams := by
  have hr : shopOrderRoute ∈ (RouteSet.ofDescriptors [shopOrder]).routes := by decide
  have hfront : shopOrderRoute.frontParams = ["shop"] := by decide
  refine ⟨hr, hfront, (path_params_declared_iff hr).1.2
    ⟨fun _ => by decide, fun _ => ⟨by decide, ?_⟩⟩⟩
  rw [hfront]
  decide

/-- Routes with a parameter in the prefix alone, and with a parameter that
is repeated. -/
def misdeclared : List RouteDescriptor :=
  [{ method := "GET", path := "/orders", handler := "order.list",
     pathPrefix := some "/shops/:shop" },
    { method := "GET", path := "/orders/:id/items/:id", handler := "order.item" }]

/-- A parameter of the prefix is read and not declared, and one that the
path repeats is declared twice. -/
theorem misdeclared_params :
    ((RouteSet.ofDescriptors misdeclared).routes.map fun r =>
        ((r.clientMethod (.ofDescriptors misdeclared)).implementation.parameters.map
          Parameter.name,
          (r.clientMethod (.ofDescriptors misdeclared)).paramsRead))
        = [(["query"], ["shop"]), (["params", "query"], ["id", "id"])]
      ∧ ∀ r ∈ (RouteSet.ofDescriptors misdeclared).routes,
        ¬ (r.clientMethod (.ofDescriptors misdeclared)).DeclaresParams := by
  refine ⟨by decide +kernel, fun r hr => ?_⟩
  rw [RouteSet.declaresParams_iff_of_mem hr]
  revert r
  decide +kernel

end TypedContent

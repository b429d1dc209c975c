import TypedContent.Text.Basic

/-!
# Command-line arguments

    cms-typegen generate (--schema FILE | --declarations DIR) [--routes
    FILE] [--route-module FILE]... [--route-types FILE] [--config FILE]
    [--out DIR]

Arguments are read from left to right, and the first one that asks for help
or that has no place decides. The value of an option is its next argument or
follows an equals sign. Only a routes module may be given several times.
-/

namespace TypedContent

namespace Command

/-! ## Words -/

/-- An argument by its form. -/
inductive Word where
  /-- `--name` or `--name=value` -/
  | long (name : String) (value : Option String)
  /-- A hyphen and letters, of which the first one decides. -/
  | short (letter : Char)
  /-- Two hyphens, behind which nothing is an option. -/
  | escape
  | plain
deriving DecidableEq, Repr

def Word.ofArgument (argument : String) : Word :=
  match argument.toList with
  | ['-', '-'] => escape
  | '-' :: '-' :: rest =>
    match Text.cutAt? ['='] rest with
    | some (name, value) => long (String.ofList name) (some (String.ofList value))
    | none => long (String.ofList rest) none
  | '-' :: letter :: _ => short letter
  | _ => plain

/-! ## Options -/

/-- The options of the `generate` command. -/
inductive Flag where
  | schema
  | declarations
  | routes
  | routeModule
  | routeTypes
  | config
  | out
deriving DecidableEq, Repr

namespace Flag

def name : Flag → String
  | schema => "schema"
  | declarations => "declarations"
  | routes => "routes"
  | routeModule => "route-module"
  | routeTypes => "route-types"
  | config => "config"
  | out => "out"

def all : List Flag :=
  [schema, declarations, routes, routeModule, routeTypes, config, out]

def ofName? (name : String) : Option Flag :=
  all.find? (·.name == name)

/-- Whether an option may be given several times. -/
def isRepeatable (f : Flag) : Bool :=
  f == routeModule

end Flag

/-- What is wrong with the arguments. -/
inductive Misuse where
  | noCommand
  | unknownArgument (argument : String)
  | missingValue (flag : Flag)
  | emptyValue (flag : Flag)
  | repeated (flag : Flag)
  /-- Both a schema document and declarations are given. -/
  | twoSchemas
  /-- Neither a schema document nor declarations are given. -/
  | noSchema
deriving DecidableEq, Repr

/-- The values given to options, the last one first. -/
abbrev Given := List (Flag × String)

/-- Give a value to an option. -/
def Given.add (given : Given) (flag : Flag) (value : String) : Except Misuse Given :=
  if value = "" then .error (.emptyValue flag)
  else if !flag.isRepeatable && given.any (·.1 == flag) then .error (.repeated flag)
  else .ok ((flag, value) :: given)

/-- The options among some arguments; none when help is asked for. -/
def readOptions (given : Given) : List String → Except Misuse (Option Given)
  | [] => .ok (some given)
  | [argument] =>
    match Word.ofArgument argument with
    | .escape => .ok (some given)
    | .long "help" none | .short 'h' => .ok none
    | .long name value =>
      match Flag.ofName? name, value with
      | none, _ => .error (.unknownArgument argument)
      | some flag, none => .error (.missingValue flag)
      | some flag, some value => (given.add flag value).map some
    | .short _ | .plain => .error (.unknownArgument argument)
  | argument :: next :: rest =>
    match Word.ofArgument argument with
    | .escape => .error (.unknownArgument next)
    | .long "help" none | .short 'h' => .ok none
    | .long name value =>
      match Flag.ofName? name, value with
      | none, _ => .error (.unknownArgument argument)
      | some flag, none =>
        if Word.ofArgument next = .plain then do readOptions (← given.add flag next) rest
        else .error (.missingValue flag)
      | some flag, some value => do readOptions (← given.add flag value) (next :: rest)
    | .short _ | .plain => .error (.unknownArgument argument)

/-! ## Actions -/

/-- Where a schema is written down. -/
inductive SchemaPlace where
  /-- A JSON document. -/
  | document (file : String)
  /-- A directory with declaration text. -/
  | declarations (directory : String)
deriving DecidableEq, Repr

/-- What to generate modules from, and where to put them. -/
structure Request where
  schema : SchemaPlace
  routes : Option String := none
  routeModules : List String := []
  routeTypes : Option String := none
  config : Option String := none
  out : String := "generated"
deriving DecidableEq, Repr

namespace Given

def value? (given : Given) (flag : Flag) : Option String :=
  given.lookup flag

/-- The values of a repeatable option, in order. -/
def values (given : Given) (flag : Flag) : List String :=
  (given.reverse.filter (·.1 == flag)).map Prod.snd

def schemaPlace (given : Given) : Except Misuse SchemaPlace :=
  match given.value? .schema, given.value? .declarations with
  | some file, none => .ok (.document file)
  | none, some directory => .ok (.declarations directory)
  | some _, some _ => .error .twoSchemas
  | none, none => .error .noSchema

def request (given : Given) : Except Misuse Request := do
  return {
    schema := ← given.schemaPlace
    routes := given.value? .routes
    routeModules := given.values .routeModule
    routeTypes := given.value? .routeTypes
    config := given.value? .config
    out := (given.value? .out).getD "generated" }

end Given

/-- What the program is asked to do. -/
inductive Action where
  | generate (request : Request)
  | help
  | version
deriving DecidableEq, Repr

/-- Help is about the program or about one of its two commands. -/
def readHelp : List String → Except Misuse Action
  | [] | ["generate"] | ["help"] => .ok .help
  | "generate" :: argument :: _ | "help" :: argument :: _ =>
    .error (.unknownArgument argument)
  | argument :: _ => .error (.unknownArgument argument)

/-- What some arguments ask for. -/
def parse : List String → Except Misuse Action
  | [] => .error .noCommand
  | "generate" :: rest => do
    match ← readOptions [] rest with
    | none => return .help
    | some given => return .generate (← given.request)
  | "help" :: rest => readHelp rest
  | argument :: _ =>
    match Word.ofArgument argument with
    | .long "help" none | .short 'h' => .ok .help
    | .long "version" none | .short 'V' => .ok .version
    | _ => .error (.unknownArgument argument)

/-- The line that reports a misuse. -/
def Misuse.message : Misuse → String
  | noCommand => "a command is required"
  | unknownArgument argument => "unexpected argument '" ++ argument ++ "'"
  | missingValue flag => "a value is required for '--" ++ flag.name ++ "'"
  | emptyValue flag => "the value of '--" ++ flag.name ++ "' must not be empty"
  | repeated flag => "'--" ++ flag.name ++ "' cannot be used multiple times"
  | twoSchemas => "'--schema' cannot be used with '--declarations'"
  | noSchema => "'--schema' or '--declarations' is required"

end Command

end TypedContent

import TypedContent.Error
import TypedContent.Files.Tree
import TypedContent.Text.Basic

/-!
# Workspaces

A workspace is a tree of files with the directory in which a program runs,
and this module says what reading and writing do to it. A path is followed
step by step, from the root if it starts with a slash and else from the
directory of the program. Every step but the last has to lead to a directory
that is there; above the root there is only the root. Names have at most 255
bytes and paths at most 4095.
-/

namespace TypedContent

namespace Files

structure Workspace where
  root : Node
  /-- The names from the root to the directory of the program. -/
  place : List String

namespace Workspace

/-! ## Following paths -/

def nameLimit : Nat :=
  255

def pathLimit : Nat :=
  4095

/-- The names from the root to where some steps lead, starting at `place`.
Only the last name may be missing. -/
def follow (root : Node) : List String → List String → Except FileError (List String)
  | place, [] => .ok place
  | place, step :: rest =>
    match root.find? place with
    | none => .error .notFound
    | some (.file _) => .error .notDirectory
    | some (.directory _) =>
      if step = "." then follow root place rest
      else if step = ".." then follow root place.dropLast rest
      else if nameLimit < Text.byteLength step.toList then .error .nameTooLong
      else follow root (place ++ [step]) rest

/-- The names from the root to where the steps of a path lead. An empty path
leads nowhere. -/
def locate (w : Workspace) (path : String) (steps : List String) :
    Except FileError (List String) :=
  if path = "" then .error .notFound
  else if pathLimit < Text.byteLength path.toList then .error .nameTooLong
  else follow w.root (if startsWithSlash path then [] else w.place) steps

/-! ## Reading -/

/-- What a path leads to. -/
def look (w : Workspace) (path : String) : Except FileError Node := do
  match w.root.find? (← w.locate path (steps path)) with
  | some node => return node
  | none => throw .notFound

def read (w : Workspace) (path : String) : Except FileError String := do
  match ← w.look path with
  | .file text => return text
  | .directory _ => throw .isDirectory

def isThere (w : Workspace) (path : String) : Bool :=
  (w.look path).toBool

/-- The files in the directory of the program, with their paths from
there. -/
def files (w : Workspace) : List (String × String) :=
  ((w.root.find? w.place).map (·.files "")).getD []

/-! ## Writing -/

def put (w : Workspace) (new : Node) (place : List String) : Workspace :=
  { w with root := Node.put new place w.root }

/-- Write a file. Its directory has to be there. -/
def write (w : Workspace) (path text : String) : Except FileError Workspace := do
  let place ← w.locate path (steps path)
  match w.root.find? place with
  | some (.directory _) => throw .isDirectory
  | _ => return w.put (.file text) place

/-- Make one directory at the end of some steps of a path. -/
def makeDirectory (w : Workspace) (path : String) (steps : List String) :
    Except FileError Workspace := do
  let place ← w.locate path steps
  match w.root.find? place with
  | some _ => throw .exists
  | none => return w.put (.directory []) place

def isDirectoryAt (w : Workspace) (path : String) (steps : List String) : Bool :=
  match w.locate path steps with
  | .ok place => (w.root.find? place).any Node.isDirectory
  | .error _ => false

/-- The beginnings of the steps that are shorter than all of them, the
longest first. -/
def ancestors (steps : List String) : List (List String) :=
  let named := steps.filter (· ≠ ".")
  ((List.range named.length).map named.take).reverse

/-- Make the first of some directories, and before that the ones after it as
far as they are missing. The workspace is given back also when that
fails. -/
def makeAll (path : String) :
    List (List String) → Workspace → Except FileError Unit × Workspace
  | [], w => (.ok (), w)
  | steps :: shorter, w =>
    match w.makeDirectory path steps with
    | .ok made => (.ok (), made)
    | .error .notFound =>
      match makeAll path shorter w with
      | (.error e, made) => (.error e, made)
      | (.ok (), made) =>
        match made.makeDirectory path steps with
        | .ok made => (.ok (), made)
        | .error e =>
          if made.isDirectoryAt path steps then (.ok (), made) else (.error e, made)
    | .error e => if w.isDirectoryAt path steps then (.ok (), w) else (.error e, w)

/-- Make a directory and the directories it is in, unless they are there. -/
def makeDirectories (w : Workspace) (path : String) : Except FileError Unit × Workspace :=
  makeAll path (names path :: ancestors (names path)) w

/-! ## A fresh workspace -/

/-- The directories that stand at the root of every system. -/
def systemDirectories : List String :=
  ["bin", "dev", "etc", "home", "lib", "proc", "root", "sys", "tmp", "usr", "var"]

/-- A system on which nothing has happened yet. Reading the null device
gives an empty text. -/
def system : Node :=
  Node.put (.file "") ["dev", "null"]
    (.directory (systemDirectories.map fun name => (name, .directory [])))

/-- The workspace of a program that runs in a new temporary directory with
the given files. -/
def ofFiles (files : List (String × String)) : Workspace :=
  let place := ["tmp", "typed-content"]
  let empty : Workspace := { root := Node.put (.directory []) place system, place }
  files.foldl (fun w (path, text) => w.put (.file text) (w.place ++ names path)) empty

end Workspace

end Files

end TypedContent

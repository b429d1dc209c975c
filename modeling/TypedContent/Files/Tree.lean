import TypedContent.Keyed
import TypedContent.Text.Basic

/-!
# Trees of files

A tree of directories and files, and the paths that name places in it.
-/

namespace TypedContent

namespace Files

inductive Node where
  | file (text : String)
  | directory (entries : List (String × Node))

namespace Node

/-- What stands at the end of a list of names. -/
def find? : List String → Node → Option Node
  | [], node => some node
  | _ :: _, file _ => none
  | name :: names, directory entries => (entries.lookup name).bind (find? names)

/-- Put something at the end of a list of names; missing directories on the
way are made. -/
def put (new : Node) : List String → Node → Node
  | [], _ => new
  | _ :: _, file text => file text
  | name :: names, directory entries =>
    directory (insertEntry name
      (put new names ((entries.lookup name).getD (directory []))) entries)

def isDirectory : Node → Bool
  | directory _ => true
  | file _ => false

mutual

/-- The files below a place, with their paths. -/
def files (path : String) : Node → List (String × String)
  | file text => [(path, text)]
  | directory entries => filesOfEntries (if path = "" then "" else path ++ "/") entries

def filesOfEntries (start : String) : List (String × Node) → List (String × String)
  | [] => []
  | (name, node) :: entries => files (start ++ name) node ++ filesOfEntries start entries

end

end Node

/-! ## Paths -/

/-- The names in a path. -/
def names (path : String) : List String :=
  (Text.pieces (· == '/') path.toList).map String.ofList

def endsInSlash (path : String) : Bool :=
  path.toList.getLast? == some '/'

def startsWithSlash (path : String) : Bool :=
  path.toList.head? == some '/'

/-- The steps to what a path names. A slash at the end asks for a
directory. -/
def steps (path : String) : List String :=
  names path ++ if endsInSlash path then ["."] else []

/-- A name below a directory. -/
def join (directory name : String) : String :=
  if endsInSlash directory then directory ++ name else directory ++ "/" ++ name

end Files

end TypedContent

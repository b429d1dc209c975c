import TypedContent.Files.Workspace

/-!
# Access to files

What a program may do with files, for any monad in which it runs.
`workspaceAccess` is access to a workspace that is kept as a state, which
says what a run does without any files being there.
-/

namespace TypedContent

namespace Files

structure Access (m : Type → Type) where
  read : String → m (Except FileError String)
  isThere : String → m Bool
  makeDirectories : String → m (Except FileError Unit)
  write : String → String → m (Except FileError Unit)

namespace Access

variable {m : Type → Type} [Monad m]

/-- Name the path in an error. -/
def naming {α : Type} (path : String)
    (action : m (Except FileError α)) : ExceptT Error m α :=
  ExceptT.mk do return (← action).mapError (Error.file path)

/-- The text of a file. -/
def text (files : Access m) (path : String) : ExceptT Error m String :=
  naming path (files.read path)

/-- The text of a file, or nothing when it is not there. -/
def textIfThere (files : Access m) (path : String) : ExceptT Error m String := do
  if ← files.isThere path then files.text path else return ""

def store (files : Access m) (path text : String) : ExceptT Error m Unit :=
  naming path (files.write path text)

def directory (files : Access m) (path : String) : ExceptT Error m Unit :=
  naming path (files.makeDirectories path)

end Access

/-- Access to a workspace. -/
def workspaceAccess : Access (StateM Workspace) where
  read path := do return (← get).read path
  isThere path := do return (← get).isThere path
  makeDirectories path := do
    let (result, after) := (← get).makeDirectories path
    set after
    return result
  write path text := do
    match (← get).write path text with
    | .ok after =>
      set after
      return .ok ()
    | .error e => return .error e

end Files

end TypedContent

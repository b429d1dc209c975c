import Std.Time
import TypedContent.Command.Generate

/-!
# The command line

Access to real files, the time of the run, and what is printed.
-/

namespace TypedContent

namespace Main

def osReason (code : UInt32) (details : String) : FileError :=
  .other (details ++ " (os error " ++ toString code.toNat ++ ")")

/-- The reason for which the system refused. -/
def fileError : IO.Error → FileError
  | .noFileOrDirectory _ _ _ | .noSuchThing _ _ _ => .notFound
  | .alreadyExists _ _ _ => .exists
  | .inappropriateType _ code details =>
    if code = 20 then .notDirectory else if code = 21 then .isDirectory
      else osReason code details
  | .invalidArgument _ code details =>
    if code = 36 then .nameTooLong else osReason code details
  | .permissionDenied _ code details | .resourceExhausted _ code details =>
    osReason code details
  | .interrupted _ code details => osReason code details
  | .otherError code details | .resourceBusy code details
  | .illegalOperation code details =>
    osReason code details
  | e => .other (toString e)

def attempt {α : Type} (action : IO α) : IO (Except FileError α) := do
  match ← action.toBaseIO with
  | .ok a => return .ok a
  | .error e => return .error (fileError e)

/-- Access to the files of the system. -/
def fileAccess : Files.Access IO where
  read path := attempt (IO.FS.readFile path)
  isThere path := do return (← attempt (IO.FS.realPath path)) matches .ok _
  makeDirectories path := attempt (IO.FS.createDirAll path)
  write path text := attempt (IO.FS.writeFile path text)

/-- The time of the run, in UTC to the second. -/
def now : IO String := do
  let time := Std.Time.DateTime.ofTimestamp
    (← Std.Time.Timestamp.now) Std.Time.TimeZone.ZoneRules.UTC
  return time.format "uuuu-MM-dd'T'HH:mm:ss'Z'"

def usage : String :=
  Text.unlines
    ["Generate TypeScript types and a typed client from a CMS content schema",
      "",
      "Usage: cms-typegen generate [OPTIONS] <--schema <FILE>|--declarations <DIR>>",
      "",
      "Options:",
      "  --schema <FILE>        Schema document in JSON",
      "  --declarations <DIR>   Directory with contentTypes.d.ts and components.d.ts",
      "  --routes <FILE>        Route descriptors in JSON",
      "  --route-module <FILE>  Routes module; may be given several times",
      "  --route-types <FILE>   Type declarations for the actions of the routes modules",
      "  --config <FILE>        Settings in TOML",
      "  --out <DIR>            Output directory [default: generated]"]

/-- Print how a run ended. -/
def report : Command.Outcome → IO Unit
  | .done => return ()
  | .help => IO.print usage
  | .version => IO.println "cms-typegen 0.1.0"
  | .misused cause => IO.eprintln ("error: " ++ cause.message)
  | .failed cause => IO.eprintln cause.message

end Main

end TypedContent

def main (arguments : List String) : IO UInt32 := do
  let outcome ← TypedContent.Command.run TypedContent.Main.fileAccess
      (← TypedContent.Main.now) arguments
  TypedContent.Main.report outcome
  return UInt32.ofNat outcome.exitCode

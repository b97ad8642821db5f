import Std.Time.DateTime.Timestamp
import PlatformCatalog.Command.Run
import PlatformCatalog.Store.Document

/-!
# The command line

Reads the words of a command line, runs the command and prints what it says.
A store is a document in a file. There is no way from here to a network, so
that a fetch ends as it does where no host can be reached.
-/

set_option autoImplicit false

namespace PlatformCatalog.Command

def lookAt (path : String) : IO Store.Site := do
  try
    return Store.siteOfText (← IO.FS.readFile path)
  catch e =>
    match e with
    | .noFileOrDirectory .. => return .vacant
    | .inappropriateType .. => return .underFile
    | _ => return .foreign

def directory? (path : String) : Option String :=
  match (path.toList.reverse.dropWhile (· ≠ '/')).drop 1 with
  | [] => none
  | cs => some (String.ofList cs.reverse)

def keep (path : String) (s : Store) : IO Unit := do
  if let some directory := directory? path then IO.FS.createDirAll directory
  IO.FS.writeFile path s.toJson.compact

def dataDirectory : IO String := do
  if let some directory ← IO.getEnv "XDG_DATA_HOME" then return directory
  if let some home ← IO.getEnv "HOME" then return Settings.joinPath home ".local/share"
  return "."

def currentTime : IO Time.Timestamp := do
  let t ← Std.Time.Timestamp.now
  return ⟨t.val.second.val, t.val.nano.val.toNat⟩

def pathOf (dataDirectory : String) (words : List String) : Option String :=
  match Invocation.parse words with
  | .ok i => some (Settings.path dataDirectory i.backend i.path)
  | .error _ => none

def surroundings (words : List String) : IO Surroundings := do
  let dataDirectory ← dataDirectory
  let site ← match pathOf dataDirectory words with
    | some path => lookAt path
    | none => pure .vacant
  return { site := fun _ => site, dataDirectory, network := .unreachable, now := ← currentTime,
           threads := 4 }

end PlatformCatalog.Command

open PlatformCatalog Command in
def main (words : List String) : IO UInt32 := do
  let outcome := run (← surroundings words) words
  if let some (path, s) := outcome.written then keep path s
  IO.print outcome.output.out
  IO.eprint outcome.output.err
  return outcome.output.code.toUInt32

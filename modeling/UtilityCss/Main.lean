import UtilityCss.Command.Run
import UtilityCss.Command.TableFile
/-
  The program: its arguments, its streams and its files.

  Every path that the arguments may name is looked up beforehand, the run
  itself is `Command.run`, and the database it leaves is written back. The
  service is announced and not started here: what listens hands its requests
  to `Api.respond`. How deep a JSON value may nest is set here.
-/

namespace UtilityCss.Program

open Command

local instance : Json.Limit := ⟨980, by decide⟩

/-- The octets of a file, if there is a file that can be read. -/
def readFile? (path : Text) : IO (Option (List Nat)) := do
  try
    let bytes ← IO.FS.readBinFile (path.shown)
    return some (bytes.toList.map UInt8.toNat)
  catch _ => return none

def directoryExists (path : Text) : IO Bool := do
  let here ← IO.currentDir
  (here / path.shown).isDir

/-- The endings of the files that a database keeps beside its own. -/
def endings : List Text := [Text.of "-wal", Text.of "-journal", Text.of "-shm"]

/-- The paths that arguments may name: each argument, what follows an equals sign in it, and the
path of the database that is used when none is named; and the paths beside each of them. -/
def candidates (arguments : List Text) : List Text :=
  let named := Text.of "figwind.db" :: arguments.flatMap (fun arg =>
    match Text.breakAt? '=' arg with
    | some (_, value) => [arg, value]
    | none => [arg])
  named.flatMap (fun path => path :: endings.map (path ++ ·))

/-- The path of the directory that a path lies in. -/
def directoryOf (path : Text) : Text :=
  let start := (path.reverse.dropWhile (· ≠ .char '/')).reverse
  if start.isEmpty then "." else start

/-- What lies at the candidates, and which of their directories are there. -/
def lookAround (paths : List Text) : IO Workspace := do
  let mut ws : Workspace := OrderedMap.empty
  for path in paths do
    if ← directoryExists (directoryOf path) then
      ws := ws.put (Place.ofPath (directoryOf path) ++ [Text.of "."]) (.document [])
    if let some octets ← readFile? path then
      ws := ws.put (Place.ofPath path) (TableFile.content octets)
  return ws

/-- The database of a path written back, if it is one that is kept, and what it has taken removed. -/
def writeBack (before ws : Workspace) (path : Text) : IO Unit := do
  for ending in endings do
    let place := Place.ofPath (path ++ ending)
    if before.contains place && !ws.contains place then
      IO.FS.removeFile ((path ++ ending).shown)
  match ws.get? (Place.ofPath path) with
  | some (.database (some table)) =>
    let bytes := (TableFile.encode table).map UInt8.ofNat
    IO.FS.writeBinFile (path.shown) ⟨bytes.toArray⟩
  | _ => return ()

/-- The standard input, if the arguments ask for it. -/
def inputFor (ws : Workspace) (arguments : List Text) : IO Text := do
  match Invocation.read? ws arguments with
  | some (.task _ _ (.convert .input _ _)) =>
    let input ← (← IO.getStdin).readToEnd
    return Text.of input
  | _ => return []

/-- The line for an ending that the run itself has said nothing about. -/
def endingLine : Ending → Text
  | .mistake => "Usage: figwind [--version] [-v] convert | vars | serve ...\n"
  | .failure failure => failure.message ++ "\n"
  | _ => []

def run (arguments : List Text) : IO UInt32 := do
  let ws ← lookAround (candidates arguments)
  let outcome := Command.run ws arguments (← inputFor ws arguments)
  match Invocation.read? ws arguments with
  | some (.task _ storage _) => writeBack ws outcome.workspace storage.path
  | _ => pure ()
  (← IO.getStderr).putStr ((outcome.report ++ endingLine outcome.ending).shown)
  (← IO.getStdout).putStr (outcome.output.shown)
  return UInt32.ofNat outcome.ending.code

end UtilityCss.Program

def main (arguments : List String) : IO UInt32 :=
  UtilityCss.Program.run (arguments.map UtilityCss.Text.of)

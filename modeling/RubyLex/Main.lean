import RubyLex.Program

/-!
# The executable

Takes a picture of the files that a command line names, runs the program on it, and carries its
changes out.
-/

namespace RubyLex.Main

/-- Reads a stream to its end. -/
partial def readAll (stream : IO.FS.Stream) (read : ByteArray) : IO ByteArray := do
  let chunk ← stream.read 65536
  if chunk.isEmpty then return read else readAll stream (read ++ chunk)

/-- The text of a place, from the root on. -/
def locationText (loc : Location) : String :=
  "/" ++ "/".intercalate loc.reverse

/-- Adds what really stands at a place. -/
def observe (files : FileSystem) (loc : Location) : IO FileSystem := do
  let path := (← IO.currentDir) / locationText loc
  try
    match (← path.metadata).type with
    | .dir => return files.put loc .directory
    | _ => return files.put loc (.file (← IO.FS.readBinFile path).toList)
  catch _ => return files

/-- Adds what stands on the way along some steps. -/
def observeSteps (loc : Location) (files : FileSystem) : List Step → IO FileSystem
  | [] => return files
  | s :: rest => do
    let next := s.apply loc
    observeSteps next (← observe files next) rest

/-- Adds what stands on the way to a path. -/
def observePath (files : FileSystem) (path : Path) : IO FileSystem :=
  observeSteps (if path.route.absolute then [] else files.working) files path.route.steps

/-- Carries out the changes of a run, in the order in which they were made. -/
def commit (before after : FileSystem) : IO Unit := do
  for (loc, entry) in after.entries.reverse do
    if before.get? loc ≠ some entry then
      match entry with
      | .directory => IO.FS.createDirAll (locationText loc)
      | .file content => IO.FS.writeBinFile (locationText loc) ⟨content.toArray⟩

/-- Prints what a run says, and gives its exit code. -/
def deliver (report : Program.Report) : IO UInt32 := do
  for event in report.log do
    IO.eprintln event.line
  IO.print report.output
  if report.errors ≠ "" then
    IO.eprintln report.errors
  return UInt32.ofNat report.outcome.code

/-- Runs a command line in the world as it is. -/
def run (args : List String) : IO UInt32 := do
  let settings ← Variable.all.mapM fun v => return (v, ← IO.getEnv v.name)
  let env := Environment.ofVariables fun v => (settings.lookup v).join
  let start := (Path.mk (← IO.currentDir).toString).route.steps
  let files ← observeSteps [] ⟨[], start.foldl Step.apply []⟩ start
  match CommandLine.parse env args with
  | .error stop => deliver (Program.stopped files stop)
  | .ok inv => do
    let files ← (Program.paths env inv).foldlM observePath files
    let input ← if Program.readsInput inv then readAll (← IO.getStdin) .empty else pure .empty
    let report := Program.runInvocation env files input.toList inv
    commit files report.files
    deliver report

end RubyLex.Main

def main (args : List String) : IO UInt32 :=
  RubyLex.Main.run args

import RubyLex.Config

/-! # Writing a first configuration file as a command -/

namespace RubyLex.Command

/-- What a first configuration file is asked for. -/
structure Init where
  /-- The directory to write to instead of the working directory. -/
  path? : Option Path
  /-- Whether an existing file may be replaced. -/
  force : Bool
  verbose : Bool
deriving DecidableEq, Repr

namespace Init

/-- The path of the configuration file. -/
def target (args : Init) : Path :=
  (args.path?.getD ⟨"."⟩).join Config.fileName

/-- What is wrong with the target, if anything. -/
def validate (args : Init) (files : FileSystem) : Except Failure Unit :=
  match args.path?.filter fun dir => files.hasEntry dir.route && !files.hasDirectory dir.route with
  | some dir => .error (.targetNotDirectory dir)
  | none =>
    if files.hasEntry args.target.route && !args.force then .error (.configExists args.target)
    else .ok ()

/-- Writes the configuration file, and gives its path. -/
def execute (args : Init) : Session Path := do
  Session.ofExcept (args.validate (← get).files)
  Config.default.save args.target
  if args.verbose then
    Session.report [.createdConfig args.target]
  return args.target

/-- Writes the configuration file. -/
def run (args : Init) : Session Unit := do
  let _ ← args.execute

end Init

end RubyLex.Command

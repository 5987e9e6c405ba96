import RubyLex.Command.Init
import RubyLex.Command.Kinds
import RubyLex.Command.Tokenize
import RubyLex.CommandLine.Invocation

/-!
# The program

A run from the words of its command line to its exit code: the command line is read, then the
configuration, and then the command runs.
-/

namespace RubyLex.Program

open CommandLine

/-- Runs the command that was asked for. -/
def execute (request : Request) (verbose : Bool) (config : Config) : Session Unit :=
  match request with
  | .tokenize inputs output? format? jobs? force =>
    Command.Tokenize.run ⟨inputs, output?, format?, jobs?, force, config.format, config.jobs⟩
  | .kinds format? => Command.Kinds.run ⟨format?, config.format⟩
  | .init path? force => Command.Init.run ⟨path?, force, verbose⟩

/-- How a run ended. -/
inductive Outcome where
  | success
  | failed (failure : Failure)
  | stopped (stop : Stop)
deriving DecidableEq, Repr

/-- The exit code of a run: one for a command that failed, two for a command line that was not in
order. -/
def Outcome.code : Outcome → Nat
  | .success => 0
  | .failed _ => 1
  | .stopped stop => if stop.isSuccess then 0 else 2

/-- What a run leaves behind. -/
structure Report where
  outcome : Outcome
  files : FileSystem
  output : String
  /-- The events that are shown. -/
  log : List Log.Event

/-- The text on standard error, the log apart. -/
def Report.errors (r : Report) : String :=
  match r.outcome with
  | .success => ""
  | .failed failure => "error: " ++ failure.message
  | .stopped stop => if stop.isSuccess then "" else stop.message

/-- The threshold of the log. The environment counts more than verbosity. -/
def threshold (env : Environment) (verbose : Bool) : Log.Threshold :=
  (env.logLevel?.bind Log.Threshold.ofName?).getD (.ofVerbose verbose)

/-- Runs a command with its configuration. -/
def runWith (env : Environment) (files : FileSystem) (input : List UInt8) (inv : Invocation)
    (config : Config) : Report :=
  let verbose := inv.verbose || config.verbose
  let shown := Log.shown (threshold env verbose)
  match execute inv.request verbose config ⟨files, input, "", []⟩ with
  | .ok _ w => ⟨.success, w.files, w.output, shown w.log⟩
  | .error failure w => ⟨.failed failure, w.files, w.output, shown w.log⟩

/-- Runs an invocation: its configuration is loaded before anything else is done or reported. -/
def runInvocation (env : Environment) (files : FileSystem) (input : List UInt8)
    (inv : Invocation) : Report :=
  match Config.load files env.places inv.config? with
  | .error failure => ⟨.failed failure, files, "", []⟩
  | .ok config => runWith env files input inv config

/-- The paths that an invocation looks at, those for configuration files included. -/
def paths (env : Environment) (inv : Invocation) : List Path :=
  inv.config?.toList ++ env.places.candidates ++
    match inv.request with
    | .tokenize inputs output? _ _ _ => inputs.filter (!·.isStandardInput) ++ output?.toList
    | .kinds _ => []
    | .init path? force =>
      path?.toList ++ [(⟨path?, force, inv.verbose⟩ : Command.Init).target]

/-- Whether an invocation reads standard input. -/
def readsInput (inv : Invocation) : Bool :=
  match inv.request with
  | .tokenize inputs .. => inputs.any Path.isStandardInput
  | _ => false

/-- What a command line that runs no command leaves behind. -/
def stopped (files : FileSystem) (stop : Stop) : Report :=
  ⟨.stopped stop, files, if stop.isSuccess then stop.message ++ "\n" else "", []⟩

/-- Runs the program. -/
def run (env : Environment) (files : FileSystem) (input : List UInt8) (args : List String) :
    Report :=
  match parse env args with
  | .error stop => stopped files stop
  | .ok inv => runInvocation env files input inv

end RubyLex.Program

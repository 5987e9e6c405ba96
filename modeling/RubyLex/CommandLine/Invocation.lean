import RubyLex.CommandLine.Progress
import RubyLex.Environment

/-!
# Invocations

A command line is read at the top level, then at the level of the command that was named, and the
environment fills in what was not said.
-/

namespace RubyLex.CommandLine

/-- Fills in one parameter from the environment unless it was said. -/
def Said.fill (level : Level) (p : Parameter) (value? : Option String) (said : Said) :
    Except Stop Said :=
  match (said.lookup p).isSome, value? with
  | false, some value => said.add level p [value]
  | _, _ => .ok said

/-- Settles a level whose words are all read, and fills in the environment. Gives what was said,
and that with what the environment adds. -/
def finish (level : Level) (env : Environment) (st : Progress) : Except Stop (Said × Said) := do
  let st ← st.settle level
  let said ← st.said.fill level .verbose env.verbose?
  let said ← said.fill level .config env.config?
  let said ← said.fill level .noColor env.noColor?
  return (st.said, said)

/-- A command with the options that were given to it. -/
inductive Request where
  | tokenize (inputs : List Path) (output? : Option Path) (format? : Option String)
      (jobs? : Option Nat) (force : Bool)
  | kinds (format? : Option String)
  | init (path? : Option Path) (force : Bool)
deriving DecidableEq, Repr

/-- A command line that runs a command. -/
structure Invocation where
  verbose : Bool
  config? : Option Path
  noColor : Bool
  request : Request
deriving DecidableEq, Repr

namespace Said

/-- The value of a parameter. -/
def value? (said : Said) (p : Parameter) : Option String :=
  (said.lookup p).bind List.head?

/-- Whether a switch is on. It is on if it was met, unless it was filled in with the other word. -/
def isOn (said : Said) (p : Parameter) : Bool :=
  match said.lookup p with
  | none => false
  | some values => values.head? ≠ some "false"

/-- What was said about a command. -/
def request (said : Said) : Command.Name → Except Stop Request
  | .tokenize =>
    match said.lookup .inputs with
    | none => .error .missingInputs
    | some inputs =>
      .ok (.tokenize (inputs.map Path.mk) ((said.value? .output).map Path.mk) (said.value? .format)
        ((said.value? .jobs).bind fun text => (readNumber text).toOption) (said.isOn .force))
  | .kinds => .ok (.kinds (said.value? .format))
  | .init => .ok (.init ((said.value? .path).map Path.mk) (said.isOn .force))

end Said

/-- Joins what was said at both levels. The inner level comes before the outer one, and both come
before the environment. -/
def combine (outer inner : Said × Said) (request : Request) : Invocation :=
  let said := inner.1 ++ outer.1 ++ inner.2
  { verbose := said.isOn .verbose
    config? := (said.value? .config).map Path.mk
    noColor := said.isOn .noColor
    request }

/-- Reads a command line. -/
def parse (env : Environment) (args : List String) : Except Stop Invocation := do
  match ← Progress.readWords .top {} args with
  | (st, some (name, rest)) =>
    let (inside, _) ← Progress.readWords (.command name) {} rest
    let inner ← finish (.command name) env inside
    let request ← inner.2.request name
    let outer ← finish .top env st
    return combine outer inner request
  | (st, none) =>
    let outer ← finish .top env st
    if outer.2.isEmpty then
      throw .nothing
    throw .missingCommand

end RubyLex.CommandLine

import RubyLex.Failure
import RubyLex.Log

/-!
# Sessions

A command runs in a session: it sees files and standard input, and leaves files, standard output
and a log behind. What it did before it failed is kept.
-/

namespace RubyLex

/-- What a command sees and changes. -/
structure World where
  files : FileSystem
  /-- The bytes of standard input that are not read. -/
  input : List UInt8
  /-- What was written to standard output. -/
  output : String
  /-- What was reported, in order. -/
  log : List Log.Event

/-- A computation that changes the world and may fail. -/
abbrev Session := EStateM Failure World

namespace Session

/-- Fails or goes on, without a change to the world. -/
def ofExcept {α : Type} : Except Failure α → Session α
  | .ok a => pure a
  | .error failure => throw failure

/-- Reports events. -/
def report (events : List Log.Event) : Session Unit :=
  modify fun w => { w with log := w.log ++ events }

/-- Appends to standard output. -/
def print (text : String) : Session Unit :=
  modify fun w => { w with output := w.output ++ text }

/-- Takes all of standard input, and leaves none. -/
def takeInput : Session (List UInt8) :=
  modifyGet fun w => (w.input, { w with input := [] })

/-- Runs an operation on the files. -/
def onFiles (op : FileSystem → Except FileFault Unit × FileSystem) : Session Unit := fun w =>
  match op w.files with
  | (.ok (), files) => .ok () { w with files }
  | (.error fault, files) => .error (.files fault) { w with files }

end Session

end RubyLex

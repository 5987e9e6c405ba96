import RubyLex.Listing
import RubyLex.Output

/-! # The table of kinds as a command -/

namespace RubyLex.Command

/-- What the listing of kinds is asked for. -/
structure Kinds where
  /-- The format that was asked for. -/
  format? : Option String
  /-- The format that is configured. -/
  configured : String
deriving DecidableEq, Repr

namespace Kinds

/-- Makes the table of kinds. -/
def execute (args : Kinds) : Session String := do
  let format ← Session.ofExcept (Format.resolve args.format? args.configured)
  Session.report [.startKinds format]
  return Kind.render format

/-- Prints the table of kinds. -/
def run (args : Kinds) : Session Unit := do
  Session.print (← args.execute)

end Kinds

end RubyLex.Command

import RubyLex.CommandLine.Parameter

/-!
# Command lines that run no command

A command line that asks for the version or for help, and everything that can be wrong with one.
-/

namespace RubyLex.CommandLine

/-- Why a text is no number of jobs. -/
inductive NumberFault where
  | empty
  | invalidDigit
  | tooLarge
deriving DecidableEq, Repr

def NumberFault.message : NumberFault → String
  | .empty => "cannot parse integer from empty string"
  | .invalidDigit => "invalid digit found in string"
  | .tooLarge => "number too large to fit in target type"

/-- Why a command line runs no command. -/
inductive Stop where
  /-- Help was asked for. -/
  | help (level : Level)
  /-- The version was asked for. -/
  | version (level : Level)
  /-- Nothing was said at all. -/
  | nothing
  | missingCommand
  | unknownCommand (word : String)
  | unexpectedArgument (word : String)
  | missingInputs
  | valueRequired (parameter : Parameter)
  | repeated (parameter : Parameter)
  | unexpectedValue (value : String) (parameter : Parameter)
  | invalidNumber (value : String) (parameter : Parameter) (fault : NumberFault)
  | invalidValue (value : String) (parameter : Parameter)
deriving DecidableEq, Repr

/-- What the program does, in a line. -/
def about : String :=
  "Tokenize Ruby-like source files"

namespace Stop

/-- Whether the command line was in order. -/
def isSuccess : Stop → Bool
  | .help _ | .version _ => true
  | _ => false

/-- The text for a command line that runs no command. -/
def message : Stop → String
  | .help .top | .nothing => about
  | .help (.command name) => name.help
  | .version level => level.programName ++ " 0.1.0"
  | .missingCommand => "error: 'garnett' requires a subcommand but one was not provided"
  | .unknownCommand word => "error: unrecognized subcommand '" ++ word ++ "'"
  | .unexpectedArgument word => "error: unexpected argument '" ++ word ++ "' found"
  | .missingInputs => "error: the following required arguments were not provided:"
  | .valueRequired p => "error: a value is required for '" ++ p.label ++ "' but none was supplied"
  | .repeated p => "error: the argument '" ++ p.label ++ "' cannot be used multiple times"
  | .unexpectedValue value p =>
    "error: unexpected value '" ++ value ++ "' for '" ++ p.label ++
      "' found; no more were expected"
  | .invalidNumber value p fault =>
    "error: invalid value '" ++ value ++ "' for '" ++ p.label ++ "': " ++ fault.message
  | .invalidValue value p => "error: invalid value '" ++ value ++ "' for '" ++ p.label ++ "'"

end Stop

end RubyLex.CommandLine

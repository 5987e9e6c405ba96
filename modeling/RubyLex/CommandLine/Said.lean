import RubyLex.CommandLine.Stop

/-!
# What a command line says

The values of the parameters that were met at a level. A value is checked when it is added.
-/

namespace RubyLex.CommandLine

/-- The least number of jobs that is too large for 64 bits. -/
def jobsBound : Nat :=
  0x10000000000000000

/-- Reads digits from the left, up to the first that is none or that makes the number too large. -/
def readDigits (value : Nat) : List Char → Except NumberFault Nat
  | [] => .ok value
  | c :: rest =>
    if !c.isDigit then .error .invalidDigit
    else
      let next := value * 10 + (c.toNat - '0'.toNat)
      if next < jobsBound then readDigits next rest else .error .tooLarge

/-- Reads a number, which may have a plus in front. -/
def readNumber (text : String) : Except NumberFault Nat :=
  match text.toList with
  | [] => .error .empty
  | ['+'] => .error .invalidDigit
  | '+' :: rest => readDigits 0 rest
  | cs => readDigits 0 cs

/-- Checks a value. A path is not empty, jobs are counted by a number, and the value of a switch
is one of two words. -/
def checkValue (p : Parameter) (value : String) : Except Stop Unit :=
  match p with
  | .config | .output | .path | .inputs =>
    if value = "" then .error (.valueRequired p) else .ok ()
  | .jobs =>
    match readNumber value with
    | .ok _ => .ok ()
    | .error fault => .error (.invalidNumber value p fault)
  | .verbose | .noColor | .force =>
    if value = "true" ∨ value = "false" then .ok ()
    else if value = "" then .error (.valueRequired p)
    else .error (.invalidValue value p)
  | .format | .help | .version => .ok ()

/-- What was said at a level: the values of every parameter, in order. -/
abbrev Said := List (Parameter × List String)

/-- Adds the values of a parameter that was met. Help and version are given at once. Only inputs
may be met again. -/
def Said.add (level : Level) (said : Said) (p : Parameter) (values : List String) :
    Except Stop Said := do
  if p.takesValue && values.isEmpty then
    throw (.valueRequired p)
  match p with
  | .help => throw (.help level)
  | .version => throw (.version level)
  | .inputs =>
    values.forM (checkValue p)
    return said.filter (·.1 ≠ p) ++ [(p, (said.lookup p).getD [] ++ values)]
  | _ =>
    if (said.lookup p).isSome then
      throw (.repeated p)
    values.forM (checkValue p)
    return said ++ [(p, values)]

end RubyLex.CommandLine

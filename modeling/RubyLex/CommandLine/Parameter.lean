import RubyLex.Command.Name

/-!
# Parameters of the command line

What may be said on a command line, before the name of a command and after it. Some options may
stand at either place.
-/

namespace RubyLex.CommandLine

/-- What a command line can set or ask for. -/
inductive Parameter where
  | verbose
  | config
  | noColor
  | output
  | format
  | jobs
  | force
  | path
  | help
  | version
  /-- The words that are neither options nor their values. -/
  | inputs
deriving DecidableEq, Repr

namespace Parameter

/-- The name after two dashes. -/
def long? : Parameter → Option String
  | .verbose => some "verbose"
  | .config => some "config"
  | .noColor => some "no-color"
  | .output => some "output"
  | .format => some "format"
  | .jobs => some "jobs"
  | .force => some "force"
  | .path => some "path"
  | .help => some "help"
  | .version => some "version"
  | .inputs => none

/-- The letter after one dash. -/
def short? : Parameter → Option Char
  | .verbose => some 'v'
  | .config => some 'c'
  | .output => some 'o'
  | .format => some 'F'
  | .jobs => some 'j'
  | .force => some 'f'
  | .path => some 'p'
  | .help => some 'h'
  | .version => some 'V'
  | .noColor | .inputs => none

/-- Whether a value belongs to a parameter. -/
def takesValue : Parameter → Bool
  | .config | .output | .format | .jobs | .path | .inputs => true
  | .verbose | .noColor | .force | .help | .version => false

/-- How a parameter is called in messages. -/
def label : Parameter → String
  | .verbose => "--verbose"
  | .config => "--config <CONFIG>"
  | .noColor => "--no-color"
  | .output => "--output <OUTPUT>"
  | .format => "--format <FORMAT>"
  | .jobs => "--jobs <JOBS>"
  | .force => "--force"
  | .path => "--path <PATH>"
  | .help => "--help"
  | .version => "--version"
  | .inputs => "<INPUTS>..."

end Parameter

/-- A part of the command line: before the name of a command, or after it. -/
inductive Level where
  | top
  | command (name : Command.Name)
deriving DecidableEq, Repr

namespace Level

/-- The options that may stand at a level. -/
def options : Level → List Parameter
  | .top => [.verbose, .config, .noColor, .help, .version]
  | .command .tokenize =>
    [.output, .format, .jobs, .force, .verbose, .config, .noColor, .help, .version]
  | .command .kinds => [.format, .verbose, .config, .noColor, .help, .version]
  | .command .init => [.path, .force, .verbose, .config, .noColor, .help, .version]

/-- Whether words that are no options may stand at a level. -/
def takesInputs : Level → Bool
  | .command .tokenize => true
  | _ => false

/-- The option of a level with a name after two dashes. -/
def long? (level : Level) (name : String) : Option Parameter :=
  level.options.find? fun p => p.long? == some name

/-- The option of a level with a letter after one dash. -/
def short? (level : Level) (letter : Char) : Option Parameter :=
  level.options.find? fun p => p.short? == some letter

/-- The program as it is called at a level. -/
def programName : Level → String
  | .top => "garnett"
  | .command name => "garnett-" ++ name.text

end Level

end RubyLex.CommandLine

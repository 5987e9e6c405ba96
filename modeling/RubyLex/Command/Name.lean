/-! # The commands by name -/

namespace RubyLex.Command

/-- The commands. -/
inductive Name where
  | tokenize
  | kinds
  | init
deriving DecidableEq, Repr

namespace Name

def text : Name → String
  | .tokenize => "tokenize"
  | .kinds => "kinds"
  | .init => "init"

/-- The command that a word names. -/
def ofText? : String → Option Name
  | "tokenize" => some .tokenize
  | "kinds" => some .kinds
  | "init" => some .init
  | _ => none

theorem ofText?_text (n : Name) : ofText? n.text = some n := by
  cases n <;> rfl

/-- What a command does, in a line. -/
def description : Name → String
  | .tokenize => "Split Ruby-like source files into tokens"
  | .kinds => "List every token kind"
  | .init => "Write a default garnett.toml"

/-- What a command does, at length. -/
def help : Name → String
  | .tokenize =>
    "Reads each input file (or stdin for `-`), splits it into WORD, NUMBER, punctuation and " ++
    "operator tokens, and prints the token streams in the order the inputs were given. " ++
    "Whitespace is discarded; every other character ends up in exactly one token."
  | .kinds =>
    "Prints each token kind the lexer can emit, in declaration order, with the exact text it " ++
    "matches. WORD, NUMBER and CHAR have no fixed spelling."
  | .init =>
    "Creates a garnett.toml with the default settings in the given directory (or the current " ++
    "one). An existing file is kept unless --force is passed."

end Name

end RubyLex.Command

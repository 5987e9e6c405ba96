import RubyLex.Format
import RubyLex.Path
import RubyLex.Text.Quoted

/-!
# The log

What a command reports while it runs. Every event has a level, and a threshold says which levels
are shown.
-/

namespace RubyLex.Log

/-- How grave an event is, the gravest first. -/
inductive Level where
  | error
  | warn
  | info
  | debug
  | trace
deriving DecidableEq, Repr

def Level.name : Level → String
  | .error => "ERROR"
  | .warn => "WARN"
  | .info => "INFO"
  | .debug => "DEBUG"
  | .trace => "TRACE"

/-- A level's place, the gravest having the least. -/
def Level.rank : Level → Nat
  | .error => 1
  | .warn => 2
  | .info => 3
  | .debug => 4
  | .trace => 5

/-- The greatest rank that is shown. -/
abbrev Threshold := Nat

/-- Reads a threshold from the name of a level in any case, from its rank, or from the word that
shows nothing. An empty text shows errors. -/
def Threshold.ofName? (s : String) : Option Threshold :=
  match s.toLower with
  | "off" | "0" => some 0
  | "" | "error" | "1" => some 1
  | "warn" | "2" => some 2
  | "info" | "3" => some 3
  | "debug" | "4" => some 4
  | "trace" | "5" => some 5
  | _ => none

/-- The threshold when only verbosity is known. -/
def Threshold.ofVerbose (verbose : Bool) : Threshold :=
  if verbose then Level.debug.rank else Level.warn.rank

/-- What a command reports. -/
inductive Event where
  /-- A listing of tokens begins. -/
  | startTokenize (inputs : Nat) (format : Format) (jobs : Nat)
  /-- A listing of kinds begins. -/
  | startKinds (format : Format)
  /-- A source was read from a file. -/
  | loaded (path : Path) (bytes : Nat)
  /-- A character had no rule of its own. -/
  | unmatched (c : Char) (offset : Nat)
  /-- A source was cut into tokens. -/
  | cut (bytes tokens : Nat)
  /-- A source had no tokens. -/
  | noTokens (name : String)
  /-- A listing was written to a file. -/
  | wrote (path : Path)
  /-- A listing of tokens is complete. -/
  | tokenized (sources tokens : Nat)
  /-- A configuration file was written. -/
  | createdConfig (path : Path)
deriving DecidableEq, Repr

namespace Event

def level : Event → Level
  | .startTokenize .. | .startKinds _ | .loaded .. | .cut .. => .debug
  | .unmatched .. => .trace
  | .noTokens _ => .warn
  | .wrote _ | .tokenized .. | .createdConfig _ => .info

/-- The warning about a source without tokens. -/
def noTokensText (name : String) : String :=
  name ++ " produced no tokens"

def text : Event → String
  | .startTokenize inputs format jobs =>
    s!"starting command=\"tokenize\" inputs={inputs} format={Text.quote format.name} jobs={jobs}"
  | .startKinds format => s!"starting command=\"kinds\" format={Text.quote format.name}"
  | .loaded path bytes => s!"loaded source path={path.text} bytes={bytes}"
  | .unmatched c offset =>
    s!"no rule for character, emitting CHAR character={Text.quoteChar c} offset={offset}"
  | .cut bytes tokens => s!"tokenized source bytes={bytes} tokens={tokens}"
  | .noTokens name => noTokensText name
  | .wrote path => s!"wrote output path={path.text}"
  | .tokenized sources tokens => s!"tokenized files={sources} tokens={tokens}"
  | .createdConfig path => s!"created configuration path={path.text}"

/-- The line of an event. -/
def line (e : Event) : String :=
  e.level.name ++ " " ++ e.text

end Event

/-- The events that a threshold shows. -/
def shown (threshold : Threshold) (events : List Event) : List Event :=
  events.filter fun e => e.level.rank ≤ threshold

end RubyLex.Log

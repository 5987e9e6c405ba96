import RubyLex.Config

/-! # The environment of a run -/

namespace RubyLex

/-- The variables that are read. -/
inductive Variable where
  | verbose
  | config
  | noColor
  | logLevel
  | home
  | configHome
deriving DecidableEq, Repr

namespace Variable

def name : Variable → String
  | .verbose => "GARNETT_VERBOSE"
  | .config => "GARNETT_CONFIG"
  | .noColor => "GARNETT_NO_COLOR"
  | .logLevel => "RUST_LOG"
  | .home => "HOME"
  | .configHome => "XDG_CONFIG_HOME"

def all : List Variable :=
  [.verbose, .config, .noColor, .logLevel, .home, .configHome]

end Variable

/-- What the environment says to the program. -/
structure Environment where
  /-- Stands for the option that makes the log show more. -/
  verbose? : Option String
  /-- Stands for the option that names a configuration file. -/
  config? : Option String
  /-- Stands for the option that turns colours off. -/
  noColor? : Option String
  /-- Sets the threshold of the log. -/
  logLevel? : Option String
  /-- Where to look for a configuration file. -/
  places : Config.Places
deriving DecidableEq, Repr

namespace Environment

/-- The places that the home directory and the directory for configuration files stand for. The
second counts only if it is absolute, and is otherwise found in the first. -/
def placesOf (home? config? : Option String) : Config.Places :=
  let home? : Option Path := (home?.filter (· ≠ "")).map Path.mk
  let config? : Option Path := (config?.map Path.mk).filter (·.route.absolute)
  ⟨home?, config? <|> home?.map (·.join ".config")⟩

/-- Reads the variables of an environment. -/
def ofVariables (value? : Variable → Option String) : Environment where
  verbose? := value? .verbose
  config? := value? .config
  noColor? := value? .noColor
  logLevel? := value? .logLevel
  places := placesOf (value? .home) (value? .configHome)

end Environment

end RubyLex

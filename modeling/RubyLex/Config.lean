import RubyLex.Output
import RubyLex.Toml.Reader
import RubyLex.Toml.Writer

/-!
# Configuration

The settings that a configuration file holds, how such a file is read and written, and where one
is looked for.
-/

namespace RubyLex

/-- The settings of a configuration file. -/
structure Config where
  /-- Whether the log shows more. -/
  verbose : Bool
  /-- The name of the format of listings. -/
  format : String
  /-- The number of sources that may be read at the same time. -/
  jobs : Nat
deriving DecidableEq, Repr

namespace Config

/-- The settings that hold without a configuration file. -/
def default : Config :=
  ⟨false, "pretty", 1⟩

/-- The name of a configuration file. -/
def fileName : String :=
  "garnett.toml"

/-- Reads a node by its kind, or keeps what holds without one. -/
def setting? {α : Type} (fallback : α) (read? : Toml.Node → Option α) :
    Option Toml.Node → Option α
  | none => some fallback
  | some node => read? node

def boolean? : Toml.Node → Option Bool
  | .boolean b => some b
  | _ => none

def string? : Toml.Node → Option String
  | .string s => some s
  | _ => none

def natural? : Toml.Node → Option Nat
  | .integer n => if 0 ≤ n then some n.toNat else none
  | _ => none

/-- Reads the two settings of listings. -/
def ofNodes? (verbose : Bool) (format? jobs? : Option Toml.Node) : Option Config := do
  let format ← setting? default.format string? format?
  let jobs ← setting? default.jobs natural? jobs?
  return ⟨verbose, format, jobs⟩

/-- Reads the settings of listings from a table by name, or from an array by position. A date has
no names of settings in it. -/
def ofNode? (verbose : Bool) : Toml.Node → Option Config
  | .table _ fields => ofNodes? verbose (fields.lookup "format") (fields.lookup "jobs")
  | .array nodes => ofNodes? verbose nodes[0]? nodes[1]?
  | .moment => ofNodes? verbose none none
  | _ => none

/-- Reads the settings from the fields of a document. Other fields are ignored. -/
def ofFields? (fields : Toml.Fields) : Option Config := do
  let verbose ← setting? default.verbose boolean? (fields.lookup "verbose")
  match fields.lookup "tokenize" with
  | none => ofNodes? verbose none none
  | some node => ofNode? verbose node

/-- Reads the settings from the text of a configuration file. -/
def parse? (text : String) : Option Config :=
  (Toml.parse? text).bind ofFields?

/-- The text of a configuration file. Numbers above 63 bits have none. -/
def render (c : Config) : Except Failure String :=
  if c.jobs < Toml.integerBound then
    .ok ("verbose = " ++ (if c.verbose then "true" else "false") ++ "\n\n[tokenize]\nformat = " ++
      Toml.writeString c.format ++ "\njobs = " ++ toString c.jobs ++ "\n")
  else .error .jobsOutOfRange

/-- Reads the configuration file at a path. -/
def loadFile (files : FileSystem) (path : Path) : Except Failure Config :=
  if files.hasEntry path.route then
    match files.read path.route with
    | .error fault => .error (.files fault)
    | .ok bytes =>
      match Utf8.decode bytes with
      | .error _ => .error .configNotUtf8
      | .ok text => (parse? text).elim (.error .configMalformed) .ok
  else .error (.configMissing path)

/-- Where to look for a configuration file that no option names. -/
structure Places where
  /-- The home directory of the user. -/
  home? : Option Path
  /-- The directory for configuration files. -/
  config? : Option Path
deriving DecidableEq, Repr

/-- The paths at which a configuration file is looked for, the first that exists being used. -/
def Places.candidates (places : Places) : List Path :=
  [⟨fileName⟩] ++
    (places.home?.map fun dir => ((dir.join ".config").join "garnett").join fileName).toList ++
    (places.config?.map fun dir => (dir.join "garnett").join fileName).toList

/-- Reads the first configuration file that is found. -/
def find (files : FileSystem) (places : Places) : Except Failure Config :=
  match places.candidates.find? fun path => files.hasEntry path.route with
  | some path => loadFile files path
  | none => .ok default

/-- Reads the configuration file that an option names, or else the first that is found. -/
def load (files : FileSystem) (places : Places) : Option Path → Except Failure Config
  | some path => loadFile files path
  | none => find files places

/-- Writes a configuration file over what stands at a path. The directories that lead to it are
made before its text is. -/
def save (c : Config) (path : Path) : Session Unit := do
  Session.onFiles (·.makeParent path.route)
  let text ← Session.ofExcept c.render
  Session.onFiles fun files =>
    match files.write path.route (Utf8.encode text.toList) with
    | .ok written => (.ok (), written)
    | .error fault => (.error fault, files)

end Config

end RubyLex

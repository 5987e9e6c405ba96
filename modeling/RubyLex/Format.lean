/-! # Output formats -/

namespace RubyLex

/-- How a listing is written. -/
inductive Format where
  /-- A record to a line, its value quoted. -/
  | pretty
  /-- One JSON document. -/
  | json
  /-- Columns divided by tabs. -/
  | plain
deriving DecidableEq, Repr

namespace Format

def name : Format → String
  | .pretty => "pretty"
  | .json => "json"
  | .plain => "plain"

/-- Reads a name or a short name in any case. No character outside ASCII has one of their letters
as its lower case, so ASCII case is all there is to it. -/
def ofName? (s : String) : Option Format :=
  match s.toLower with
  | "pretty" | "pp" => some .pretty
  | "json" => some .json
  | "plain" | "tsv" => some .plain
  | _ => none

theorem ofName?_name (f : Format) : ofName? f.name = some f := by
  cases f <;> decide +kernel

end Format

end RubyLex

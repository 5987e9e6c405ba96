import RubyLex.Failure
import RubyLex.Format
import RubyLex.Token

/-!
# Listings

The tokens of some sources, and the table of kinds, written in each of the formats.
-/

namespace RubyLex

/-- The format that a flag asks for, or else the configured one. -/
def Format.resolve (flag? : Option String) (configured : String) : Except Failure Format :=
  match flag? with
  | some name => (ofName? name).elim (.error (.unknownFormat name)) .ok
  | none => (ofName? configured).elim (.error (.invalidConfiguredFormat configured)) .ok

/-- The tokens of one source. -/
structure Listing where
  name : String
  tokens : List Token
deriving DecidableEq, Repr

namespace Listing

/-- A listing as a JSON object. -/
def toJson (l : Listing) : Json :=
  .object [("file", .string l.name), ("tokens", .array (l.tokens.map Token.toJson))]

/-- A token as a record on a line of its own. -/
def prettyLine (t : Token) : String :=
  "\x7btype: " ++ Text.quote t.kind.name ++ ", value: " ++ Text.quote t.value ++ "\x7d\n"

/-- The records of one listing. -/
def prettyLines (l : Listing) : String :=
  String.join (l.tokens.map prettyLine)

/-- The line above the records of a listing that is not alone. -/
def header (l : Listing) : String :=
  "==> " ++ l.name ++ " <==\n"

/-- The records of some listings. Those of several stand under headers, with a blank line between
one and the next. -/
def pretty : List Listing → String
  | [] => ""
  | [l] => l.prettyLines
  | ls => "\n".intercalate (ls.map fun l => l.header ++ l.prettyLines)

/-- A token as a row of two columns, after a column with the name of its source if there is one. -/
def plainRow (name? : Option String) (t : Token) : String :=
  (name?.elim "" (· ++ "\t")) ++ t.kind.name ++ "\t" ++ t.value ++ "\n"

/-- The rows of some listings. The name of the source is a column only if there are several. -/
def plain (ls : List Listing) : String :=
  String.join (ls.map fun l =>
    String.join (l.tokens.map (plainRow (if ls.length > 1 then some l.name else none))))

/-- Writes some listings. -/
def render (format : Format) (ls : List Listing) : String :=
  match format with
  | .pretty => pretty ls
  | .json => String.ofList ((Json.array (ls.map toJson)).pretty 0) ++ "\n"
  | .plain => plain ls

end Listing

namespace Kind

/-- An entry of the table of kinds as a JSON object. -/
def toJson (k : Kind) : Json :=
  .object [("type", .string k.name), ("spelling", k.spelling?.elim .null .string)]

/-- The length of the longest name. -/
def nameWidth : Nat :=
  (all.map fun k => k.name.length).foldl max 0

/-- A kind's name filled up with blanks, and its spelling or a dash. -/
def prettyLine (k : Kind) : String :=
  k.name ++ "".pushn ' ' (nameWidth - k.name.length) ++ "  " ++ k.spelling?.getD "-" ++ "\n"

/-- A kind's name and its spelling, if it has one. -/
def plainRow (k : Kind) : String :=
  k.name ++ "\t" ++ k.spelling?.getD "" ++ "\n"

/-- Writes the table of kinds. -/
def render (format : Format) : String :=
  match format with
  | .pretty => String.join (all.map prettyLine)
  | .json => String.ofList ((Json.array (all.map toJson)).pretty 0) ++ "\n"
  | .plain => String.join (all.map plainRow)

end Kind

end RubyLex

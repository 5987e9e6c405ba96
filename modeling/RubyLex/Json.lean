/-!
# JSON documents

The documents that listings are made of, with the two ways to write them: on one line, and laid
out with two spaces to a level.
-/

namespace RubyLex

/-- A JSON document without numbers and truth values. -/
inductive Json where
  | null
  | string (value : String)
  | array (items : List Json)
  | object (fields : List (String × Json))

namespace Json

/-- A digit of base sixteen, in lower case. -/
def hexDigit (n : Nat) : Char :=
  Nat.digitChar n

/-- One character as it stands inside a JSON string. -/
def escape (c : Char) : List Char :=
  if c = '"' then ['\\', '"']
  else if c = '\\' then ['\\', '\\']
  else if c = '\x08' then ['\\', 'b']
  else if c = '\x0c' then ['\\', 'f']
  else if c = '\n' then ['\\', 'n']
  else if c = '\r' then ['\\', 'r']
  else if c = '\t' then ['\\', 't']
  else if c.toNat < 0x20 then
    ['\\', 'u', '0', '0', hexDigit (c.toNat / 16), hexDigit (c.toNat % 16)]
  else [c]

/-- A JSON string with its quotation marks. -/
def quote (s : String) : List Char :=
  '"' :: s.toList.flatMap escape ++ ['"']

mutual

/-- Writes a document on one line without blanks. -/
def compact : Json → List Char
  | .null => "null".toList
  | .string s => quote s
  | .array items => '[' :: compactItems items ++ [']']
  | .object fields => '\x7b' :: compactFields fields ++ ['\x7d']

def compactItems : List Json → List Char
  | [] => []
  | [j] => compact j
  | j :: k :: rest => compact j ++ ',' :: compactItems (k :: rest)

def compactFields : List (String × Json) → List Char
  | [] => []
  | [(name, j)] => quote name ++ ':' :: compact j
  | (name, j) :: f :: rest => quote name ++ ':' :: compact j ++ ',' :: compactFields (f :: rest)

end

/-- A line break and the blanks of a level. -/
def newline (level : Nat) : List Char :=
  '\n' :: List.replicate (2 * level) ' '

mutual

/-- Writes a document with one item or field to a line, the closing bracket standing at `level`. -/
def pretty (level : Nat) : Json → List Char
  | .null => "null".toList
  | .string s => quote s
  | .array [] => ['[', ']']
  | .array (j :: rest) =>
    '[' :: newline (level + 1) ++ pretty (level + 1) j ++ prettyItems level rest
  | .object [] => ['\x7b', '\x7d']
  | .object ((name, j) :: rest) =>
    '\x7b' :: newline (level + 1) ++ quote name ++ [':', ' '] ++ pretty (level + 1) j ++
      prettyFields level rest

/-- The items after the first, and the end of their array. -/
def prettyItems (level : Nat) : List Json → List Char
  | [] => newline level ++ [']']
  | j :: rest => ',' :: newline (level + 1) ++ pretty (level + 1) j ++ prettyItems level rest

/-- The fields after the first, and the end of their object. -/
def prettyFields (level : Nat) : List (String × Json) → List Char
  | [] => newline level ++ ['\x7d']
  | (name, j) :: rest =>
    ',' :: newline (level + 1) ++ quote name ++ [':', ' '] ++ pretty (level + 1) j ++
      prettyFields level rest

end

end Json

end RubyLex

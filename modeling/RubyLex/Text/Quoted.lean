import RubyLex.Text.Hidden

/-!
# Quoted text

A text between quotation marks on one line. The mark and the backslash take a backslash, four
controls have a letter of their own, and a hidden character is spelled by its number in base
sixteen.
-/

namespace RubyLex.Text

/-- The lower-case digits of a number in base sixteen, most significant first. -/
def hexDigits (n : Nat) : List Char :=
  Nat.toDigits 16 n

/-- One character as it stands between two marks. -/
def escape (mark c : Char) : List Char :=
  if c = '\x00' then ['\\', '0']
  else if c = '\t' then ['\\', 't']
  else if c = '\n' then ['\\', 'n']
  else if c = '\r' then ['\\', 'r']
  else if c = '\\' ∨ c = mark then ['\\', c]
  else if isHidden c then ['\\', 'u', '\x7b'] ++ hexDigits c.toNat ++ ['\x7d']
  else [c]

/-- A list of characters between two marks. -/
def enclose (mark : Char) (cs : List Char) : List Char :=
  mark :: cs.flatMap (escape mark) ++ [mark]

/-- A text between double quotes. -/
def quote (s : String) : String :=
  String.ofList (enclose '"' s.toList)

/-- A character between single quotes. -/
def quoteChar (c : Char) : String :=
  String.ofList (enclose '\x27' [c])

end RubyLex.Text

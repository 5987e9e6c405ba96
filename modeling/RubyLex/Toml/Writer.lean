import RubyLex.Toml.Quoted

/-!
# Writing TOML strings

A string is written in the plainest of the four styles that can hold it: between double quotes as
it stands, between single quotes, between three double quotes, between three single quotes, and
with escapes if all else fails.
-/

namespace RubyLex.Toml

/-- The styles of a string. -/
inductive Style where
  | basic
  | literal
  | basicLines
  | literalLines
deriving DecidableEq, Repr

/-- The length of the longest run of a character, `run` of them standing in front. -/
def longestRun (mark : Char) (run : Nat) : List Char → Nat
  | [] => run
  | c :: cs => if c = mark then longestRun mark (run + 1) cs else max run (longestRun mark 0 cs)

/-- A control character that no string holds as it stands. Tabs and line feeds are not meant. -/
def needsEscape (c : Char) : Bool :=
  !isPlain c && c ≠ '\n'

/-- The style in which a text is written. -/
def Style.ofText (cs : List Char) : Style :=
  let controls := cs.any needsEscape
  let backslash := cs.contains '\\'
  let newline := cs.contains '\n'
  let doubles := longestRun '"' 0 cs
  let singles := longestRun '\x27' 0 cs
  if !controls && !backslash && !newline && doubles = 0 then .basic
  else if !controls && !newline && singles = 0 then .literal
  else if !controls && !backslash && doubles ≤ 2 then .basicLines
  else if !controls && singles ≤ 2 then .literalLines
  else if newline then .basicLines
  else .basic

/-- The digit of a number below sixteen, in upper case. -/
def upperHexDigit (n : Nat) : Char :=
  if n < 10 then Char.ofNat (48 + n) else Char.ofNat (55 + n)

/-- The four digits of a number in base sixteen. -/
def fourDigits (n : Nat) : List Char :=
  [upperHexDigit (n / 4096 % 16), upperHexDigit (n / 256 % 16), upperHexDigit (n / 16 % 16),
    upperHexDigit (n % 16)]

/-- A character, not a double quote, as it stands in a string with escapes. -/
def escapeChar (lines : Bool) (c : Char) : List Char :=
  if c = '\x08' then ['\\', 'b']
  else if c = '\t' then ['\\', 't']
  else if c = '\n' then if lines then ['\n'] else ['\\', 'n']
  else if c = '\x0c' then ['\\', 'f']
  else if c = '\r' then ['\\', 'r']
  else if c = '\\' then ['\\', '\\']
  else if needsEscape c then '\\' :: 'u' :: fourDigits c.toNat
  else [c]

/-- A text with escapes. A double quote is escaped if `free` of them stand in front of it, which is
two on several lines and none on one. -/
def escapeText (lines : Bool) (free run : Nat) : List Char → List Char
  | [] => []
  | c :: cs =>
    if c = '"' then
      if run < free then '"' :: escapeText lines free (run + 1) cs
      else '\\' :: '"' :: escapeText lines free 0 cs
    else escapeChar lines c ++ escapeText lines free 0 cs

/-- The line break that follows the opening quotes of a text of several lines. -/
def opening (cs : List Char) : List Char :=
  if cs.contains '\n' then ['\n'] else []

/-- A text in a style. -/
def Style.write (cs : List Char) : Style → List Char
  | .basic => '"' :: escapeText false 0 0 cs ++ ['"']
  | .literal => '\x27' :: cs ++ ['\x27']
  | .basicLines => ['"', '"', '"'] ++ opening cs ++ escapeText true 2 0 cs ++ ['"', '"', '"']
  | .literalLines =>
    ['\x27', '\x27', '\x27'] ++ opening cs ++ cs ++ ['\x27', '\x27', '\x27']

/-- A text as a TOML string. -/
def writeString (s : String) : String :=
  String.ofList ((Style.ofText s.toList).write s.toList)

end RubyLex.Toml

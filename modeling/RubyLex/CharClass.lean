/-!
# Character classes

The classes that decide how a source text is cut. All of them are ASCII classes: a letter or a
blank of another script belongs to none of them.
-/

namespace RubyLex

/-- Separates tokens and belongs to none: space, tab, line feed, vertical tab, form feed,
carriage return. -/
def isBlank (c : Char) : Bool :=
  c == ' ' || c == '\t' || c == '\n' || c == '\x0b' || c == '\x0c' || c == '\r'

/-- Starts a word. -/
def isLetter (c : Char) : Bool :=
  c.isAlpha

/-- Starts and continues a number. -/
def isDigit (c : Char) : Bool :=
  c.isDigit

/-- Continues a word. -/
def isWordPart (c : Char) : Bool :=
  isLetter c || isDigit c || c == '_'

/-- Divides the whole part of a number from its fraction. -/
def isPoint (c : Char) : Bool :=
  c == '.'

theorem isWordPart_of_isLetter {c : Char} (h : isLetter c = true) : isWordPart c = true := by
  simp [isWordPart, h]

theorem isWordPart_of_isDigit {c : Char} (h : isDigit c = true) : isWordPart c = true := by
  simp [isWordPart, h]

end RubyLex

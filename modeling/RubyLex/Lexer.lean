import RubyLex.Cursor
import RubyLex.Lexeme

/-!
# Streaming lexemes

A lexer hands out the lexemes of a source one by one. It reads through a cursor: a word or a
number is read up to the first character that does not belong to it, and that character is pushed
back.
-/

namespace RubyLex

/-- A source that is partly read. -/
structure Lexer where
  cursor : Cursor
deriving DecidableEq, Repr

namespace Lexer

/-- A lexer at the start of a source. -/
def ofSource (source : String) : Lexer :=
  ⟨.ofSource source⟩

/-- The whole source, read or not. -/
def source (lexer : Lexer) : String :=
  lexer.cursor.source

/-- Reads word parts, and pushes back the character that ends them. -/
def readWord (cur : Cursor) : Except Cursor.Fault Cursor :=
  match _h : cur.peek with
  | none => .ok cur.advance
  | some c => if isWordPart c then readWord cur.advance else cur.advance.retreat
termination_by cur.unread
decreasing_by exact Cursor.unread_advance_lt _h

/-- Reads digits and one point unless one was seen, and pushes back the character that ends
them. -/
def readNumber (seenPoint : Bool) (cur : Cursor) : Except Cursor.Fault Cursor :=
  match _h : cur.peek with
  | none => .ok cur.advance
  | some c =>
    if isDigit c then readNumber seenPoint cur.advance
    else if isPoint c && !seenPoint then readNumber true cur.advance
    else cur.advance.retreat
termination_by cur.unread
decreasing_by all_goals exact Cursor.unread_advance_lt _h

/-- The kind of the symbol that starts with the character just read, and the cursor after it. -/
def readSymbol (c : Char) (cur : Cursor) : Kind × Cursor :=
  match Kind.punctuation? c with
  | some kind => (kind, cur)
  | none =>
    match Operator.ofChar? c with
    | none => (.char, cur)
    | some op =>
      match cur.matchChar op.extension with
      | (true, after) => (op.extended, after)
      | (false, after) => (op.single, after)

/-- The kind of the lexeme that starts with the character just read, and the cursor after it. -/
def readLexeme (c : Char) (cur : Cursor) : Except Cursor.Fault (Kind × Cursor) :=
  if isLetter c then (readWord cur).map (Kind.word, ·)
  else if isDigit c then (readNumber false cur).map (Kind.number, ·)
  else .ok (readSymbol c cur)

/-- The next lexeme from a cursor, if there is one, and the cursor after it. -/
def read (cur : Cursor) : Except Cursor.Fault (Option Lexeme × Cursor) :=
  match _h : cur.peek with
  | none => .ok (none, cur.advance)
  | some c =>
    if isBlank c then read cur.advance
    else do
      let start := cur.advance.currentStart
      let (kind, after) ← readLexeme c cur.advance
      let text ← after.sliceFrom start
      return (some ⟨⟨kind, text⟩, start⟩, after)
termination_by cur.unread
decreasing_by exact Cursor.unread_advance_lt _h

/-- The next lexeme, if there is one, and the lexer after it. -/
def next (lexer : Lexer) : Except Cursor.Fault (Option Lexeme × Lexer) :=
  (read lexer.cursor).map fun (lexeme?, after) => (lexeme?, ⟨after⟩)

/-- At most `bound` of the next lexemes. -/
def take (lexer : Lexer) : Nat → Except Cursor.Fault (List Lexeme)
  | 0 => .ok []
  | bound + 1 => do
    match ← lexer.next with
    | (none, _) => return []
    | (some lexeme, after) => return lexeme :: (← after.take bound)

/-- The lexemes that are left. There are no more of them than unread bytes. -/
def toList (lexer : Lexer) : Except Cursor.Fault (List Lexeme) :=
  lexer.take lexer.cursor.unread

end Lexer

end RubyLex

import RubyLex.CharClass

/-!
# Cursors

A cursor reads a source one character at a time and can push back the character read last. It
counts in bytes of the UTF-8 text, and refuses to push back or to cut where there is no character
to give.
-/

namespace RubyLex

/-- A reading position with one character of pushback. -/
structure Cursor where
  source : String
  /-- The byte offset just past the characters that are read. -/
  position : Nat
  /-- The character read last; none before the first read and at the end of the source. -/
  current : Option Char
  /-- Whether the character read last may be pushed back. -/
  canRetreat : Bool
deriving DecidableEq, Repr

namespace Cursor

/-- What a cursor refuses. -/
inductive Fault where
  | retreat (position : Nat)
  | slice (start position : Nat)
deriving DecidableEq, Repr

def Fault.message : Fault → String
  | .retreat position =>
    s!"cursor retreat without a character to push back (position {position})"
  | .slice start position => s!"no text from byte {start} to byte {position}"

/-- A cursor before the first character of a source. -/
def ofSource (source : String) : Cursor :=
  ⟨source, 0, none, false⟩

/-- The number of bytes that are not read. -/
def unread (cur : Cursor) : Nat :=
  cur.source.utf8ByteSize - cur.position

/-- The next character. A byte below 128 is a character of its own, and only what starts with
another byte is decoded. -/
def peek (cur : Cursor) : Option Char :=
  if h : cur.position < cur.source.utf8ByteSize then
    let byte := cur.source.getUTF8Byte ⟨cur.position⟩ h
    if byte < 128 then some (.ofUInt8 byte) else String.Pos.Raw.get? cur.source ⟨cur.position⟩
  else none

/-- Moves past the next character. At the end the position stays and nothing can be pushed back. -/
def advance (cur : Cursor) : Cursor :=
  match cur.peek with
  | some c =>
    { cur with position := cur.position + c.utf8Size, current := some c, canRetreat := true }
  | none => { cur with current := none, canRetreat := false }

/-- Pushes back the character read last, which stays current. -/
def retreat (cur : Cursor) : Except Fault Cursor :=
  match cur.current, cur.canRetreat with
  | some c, true => .ok { cur with position := cur.position - c.utf8Size, canRetreat := false }
  | _, _ => .error (.retreat cur.position)

/-- Moves past the next character if it is `c`, and says whether it did. -/
def matchChar (cur : Cursor) (c : Char) : Bool × Cursor :=
  if cur.peek = some c then (true, cur.advance) else (false, cur)

/-- The byte offset at which the character read last starts, or the position if there is none to
push back. -/
def currentStart (cur : Cursor) : Nat :=
  match cur.current, cur.canRetreat with
  | some c, true => cur.position - c.utf8Size
  | _, _ => cur.position

/-- Whether every character is read. -/
def atEnd (cur : Cursor) : Bool :=
  cur.source.utf8ByteSize ≤ cur.position

/-- The text from a byte offset to the position. -/
def sliceFrom (cur : Cursor) (start : Nat) : Except Fault String :=
  if start ≤ cur.position ∧ String.Pos.Raw.isValid cur.source ⟨start⟩ ∧
      String.Pos.Raw.isValid cur.source ⟨cur.position⟩ then
    .ok (String.Pos.Raw.extract cur.source ⟨start⟩ ⟨cur.position⟩)
  else .error (.slice start cur.position)

/-- The text that is not read. -/
def remaining (cur : Cursor) : String :=
  String.Pos.Raw.extract cur.source ⟨cur.position⟩ ⟨cur.source.utf8ByteSize⟩

@[simp] theorem source_advance (cur : Cursor) : cur.advance.source = cur.source := by
  unfold advance; split <;> rfl

@[simp] theorem current_advance (cur : Cursor) : cur.advance.current = cur.peek := by
  unfold advance; split <;> simp_all

theorem position_lt_of_peek {cur : Cursor} {c : Char} (h : cur.peek = some c) :
    cur.position < cur.source.utf8ByteSize := by
  unfold peek at h
  split at h
  · assumption
  · simp at h

/-- Reading a character leaves fewer bytes unread. -/
theorem unread_advance_lt {cur : Cursor} {c : Char} (h : cur.peek = some c) :
    cur.advance.unread < cur.unread := by
  have hp := position_lt_of_peek h
  have hc := c.utf8Size_pos
  simp only [unread, source_advance]
  simp only [advance, h]
  omega

end Cursor

end RubyLex

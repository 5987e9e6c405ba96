/-!
# UTF-8

Decoding of bytes into characters. A decoding that fails says at which byte the first bad sequence
starts, and whether the bytes end inside a sequence that was valid so far or how many of its bytes
could have started a character.
-/

namespace RubyLex.Utf8

/-- Why bytes are not UTF-8. -/
inductive Fault where
  /-- `length` bytes from `index` on start a character, and the byte after them does not go on
  with it. -/
  | invalid (index length : Nat)
  /-- The bytes end inside the character that starts at `index`. -/
  | incomplete (index : Nat)
deriving DecidableEq, Repr

def Fault.message : Fault → String
  | .invalid index length => s!"invalid utf-8 sequence of {length} bytes from index {index}"
  | .incomplete index => s!"incomplete utf-8 byte sequence from index {index}"

/-- The bytes of a text. -/
def encode (cs : List Char) : List UInt8 :=
  cs.flatMap String.utf8EncodeChar

/-- What a leading byte announces. -/
structure Lead where
  /-- The bits of the code point that it carries. -/
  bits : Nat
  /-- The number of bytes that follow it. -/
  tails : Nat
  /-- The least byte that may follow it. -/
  low : UInt8
  /-- The greatest byte that may follow it. -/
  high : UInt8

/-- Reads a leading byte. The bounds on the byte after it rule out code points that have a shorter
form, surrogates, and code points above the last. -/
def Lead.ofByte? (b : UInt8) : Option Lead :=
  if b < 0x80 then some ⟨b.toNat, 0, 0, 0⟩
  else if b < 0xc2 then none
  else if b < 0xe0 then some ⟨b.toNat % 32, 1, 0x80, 0xbf⟩
  else if b < 0xf0 then
    some ⟨b.toNat % 16, 2, if b = 0xe0 then 0xa0 else 0x80, if b = 0xed then 0x9f else 0xbf⟩
  else if b < 0xf5 then
    some ⟨b.toNat % 8, 3, if b = 0xf0 then 0x90 else 0x80, if b = 0xf4 then 0x8f else 0xbf⟩
  else none

/-- What stands at the front of some bytes. -/
inductive Front where
  | char (c : Char) (rest : List UInt8)
  | invalid (length : Nat)
  | incomplete
deriving DecidableEq, Repr

/-- Reads the bytes that a leading byte announced, `read` bytes of the character being read. -/
def readTails (low high : UInt8) (bits read : Nat) : Nat → List UInt8 → Front
  | 0, rest => .char (Char.ofNat bits) rest
  | _ + 1, [] => .incomplete
  | tails + 1, b :: rest =>
    if low ≤ b ∧ b ≤ high then
      readTails 0x80 0xbf (bits * 64 + b.toNat % 64) (read + 1) tails rest
    else .invalid read

/-- Reads the character that starts with the byte `b`. -/
def readChar (b : UInt8) (rest : List UInt8) : Front :=
  match Lead.ofByte? b with
  | none => .invalid 1
  | some lead => readTails lead.low lead.high lead.bits 1 lead.tails rest

theorem length_of_readTails {low high : UInt8} {bits read tails : Nat} {bytes rest : List UInt8}
    {c : Char} (h : readTails low high bits read tails bytes = .char c rest) :
    rest.length ≤ bytes.length := by
  fun_induction readTails low high bits read tails bytes with
  | case1 => cases h; exact Nat.le_refl _
  | case2 => cases h
  | case3 low high bits read tails b bytes _ ih => exact Nat.le_succ_of_le (ih h)
  | case4 => cases h

theorem length_of_readChar {b : UInt8} {bytes rest : List UInt8} {c : Char}
    (h : readChar b bytes = .char c rest) : rest.length ≤ bytes.length := by
  unfold readChar at h
  split at h
  · cases h
  · exact length_of_readTails h

/-- Decodes bytes the first of which stands at `index`. -/
def decodeFrom (index : Nat) : List UInt8 → Except Fault (List Char)
  | [] => .ok []
  | b :: bytes =>
    match _h : readChar b bytes with
    | .char c rest => (decodeFrom (index + c.utf8Size) rest).map (c :: ·)
    | .invalid length => .error (.invalid index length)
    | .incomplete => .error (.incomplete index)
termination_by bytes => bytes.length
decreasing_by exact Nat.lt_succ_of_le (length_of_readChar _h)

/-- Decodes bytes. -/
def decode (bytes : List UInt8) : Except Fault String :=
  (decodeFrom 0 bytes).map String.ofList

end RubyLex.Utf8

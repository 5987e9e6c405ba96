import Mathlib.Tactic.IntervalCases
import RubyLex.Text.Utf8

/-!
# Decoding what was encoded

A leading byte announces as many bytes as the character has, with bounds that its second byte meets,
and each byte after the first adds six bits of the code point.  So the bytes of a character are read
back as that character, and the bytes of a text are decoded to that text.
-/

namespace RubyLex.Utf8

variable {low high : UInt8} {bits read tails n : Nat} {rest : List UInt8}

theorem ofByte?_one (hn : n < 0x80) : Lead.ofByte? (UInt8.ofNat n) = some ⟨n, 0, 0, 0⟩ := by
  have hbyte : (UInt8.ofNat n).toNat = n := by simp; omega
  have hlt : UInt8.ofNat n < 0x80 := by
    rw [UInt8.lt_iff_toNat_lt, hbyte]
    exact hn
  rw [Lead.ofByte?, if_pos hlt, hbyte]

/-- The least leading byte that announces another stands for 64 times two, since what is smaller
has a shorter form. -/
theorem ofByte?_two (hmin : 2 ≤ n) (hn : n < 0x20) :
    Lead.ofByte? (UInt8.ofNat (n % 0x20 + 0xc0)) = some ⟨n, 1, 0x80, 0xbf⟩ := by
  interval_cases n <;> rfl

theorem ofByte?_three (hn : n < 0x10) :
    Lead.ofByte? (UInt8.ofNat (n % 0x10 + 0xe0)) =
      some ⟨n, 2, if n = 0 then 0xa0 else 0x80, if n = 13 then 0x9f else 0xbf⟩ := by
  interval_cases n <;> rfl

theorem ofByte?_four (hn : n < 5) :
    Lead.ofByte? (UInt8.ofNat (n % 8 + 0xf0)) =
      some ⟨n, 3, if n = 0 then 0x90 else 0x80, if n = 4 then 0x8f else 0xbf⟩ := by
  interval_cases n <;> rfl

/-- A byte within the bounds adds its six bits. -/
theorem readTails_cons (hlow : low.toNat ≤ n % 64 + 0x80) (hhigh : n % 64 + 0x80 ≤ high.toNat) :
    readTails low high bits read (tails + 1) (UInt8.ofNat (n % 64 + 0x80) :: rest) =
      readTails 0x80 0xbf (bits * 64 + n % 64) (read + 1) tails rest := by
  have hbyte : (UInt8.ofNat (n % 64 + 0x80)).toNat = n % 64 + 0x80 := by simp; omega
  have hsix : (n % 64 + 0x80) % 64 = n % 64 := by omega
  rw [readTails, if_pos, hbyte, hsix]
  rw [UInt8.le_iff_toNat_le, UInt8.le_iff_toNat_le, hbyte]
  exact ⟨hlow, hhigh⟩

/-- A byte between the general bounds adds its six bits. -/
theorem readTails_cons_any :
    readTails 0x80 0xbf bits read (tails + 1) (UInt8.ofNat (n % 64 + 0x80) :: rest) =
      readTails 0x80 0xbf (bits * 64 + n % 64) (read + 1) tails rest :=
  readTails_cons (by simp) (by simp; omega)

/-- The bytes of a character are a first byte and bytes after it, from which it is read back. -/
theorem readChar_utf8EncodeChar (c : Char) (rest : List UInt8) :
    ∃ b bytes, String.utf8EncodeChar c = b :: bytes ∧
      readChar b (bytes ++ rest) = .char c rest := by
  have hvalid : c.val.toNat < 0xd800 ∨ 0xdfff < c.val.toNat ∧ c.val.toNat < 0x110000 := c.valid
  have hchar : ∀ n, n = c.val.toNat → Front.char (Char.ofNat n) rest = .char c rest := by
    rintro n rfl
    rw [show Char.ofNat c.val.toNat = c from Char.ofNat_toNat c]
  fun_cases String.utf8EncodeChar c with
  | case1 v h =>
    refine ⟨_, _, rfl, ?_⟩
    rw [readChar, ofByte?_one (by omega)]
    exact hchar v rfl
  | case2 v h h₂ =>
    refine ⟨_, _, rfl, ?_⟩
    rw [readChar, ofByte?_two (by omega) (by omega)]
    simp only [List.cons_append, List.nil_append, readTails_cons_any]
    exact hchar _ (by omega)
  | case3 v h h₂ h₃ =>
    refine ⟨_, _, rfl, ?_⟩
    rw [readChar, ofByte?_three (by omega)]
    simp only [List.cons_append, List.nil_append]
    -- the bounds on the second byte exclude what is smaller than 0x800, and the surrogates
    rw [readTails_cons (by split <;> simp; omega) (by split <;> simp <;> omega),
      readTails_cons_any]
    exact hchar _ (by omega)
  | case4 v h h₂ h₃ =>
    refine ⟨_, _, rfl, ?_⟩
    rw [readChar, ofByte?_four (by omega)]
    simp only [List.cons_append, List.nil_append]
    -- here they exclude what is smaller than 0x10000 or greater than 0x10ffff
    rw [readTails_cons (by split <;> simp; omega) (by split <;> simp <;> omega),
      readTails_cons_any, readTails_cons_any]
    exact hchar _ (by omega)

theorem decodeFrom_encode (cs : List Char) (index : Nat) :
    decodeFrom index (encode cs) = .ok cs := by
  induction cs generalizing index with
  | nil => rw [encode, List.flatMap_nil, decodeFrom]
  | cons c cs ih =>
    obtain ⟨b, bytes, hbytes, hread⟩ := readChar_utf8EncodeChar c (encode cs)
    have hencode : encode (c :: cs) = b :: (bytes ++ encode cs) := by
      rw [encode, List.flatMap_cons, hbytes]
      rfl
    rw [hencode, decodeFrom]
    split
    · next c' rest hread' =>
      obtain ⟨rfl, rfl⟩ := Front.char.inj (hread.symm.trans hread')
      rw [ih]
      rfl
    · next hread' => simp [hread] at hread'
    · next hread' => simp [hread] at hread'

/-- The bytes of a text are decoded to that text. -/
theorem decode_encode (s : String) : decode (encode s.toList) = .ok s := by
  rw [decode, decodeFrom_encode]
  exact congrArg Except.ok String.ofList_toList

end RubyLex.Utf8

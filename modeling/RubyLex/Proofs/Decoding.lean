import Mathlib.Data.List.Basic
import Mathlib.Order.Bounds.Basic
import RubyLex.Proofs.Loading

/-!
# Bytes that are no text

Decoding accepts the bytes of texts and no others, and a decoding that fails says where and how the
bytes break off (`Fault.Describes`): where the longest front that is a text ends, and how far what
follows could still have become a character.

The bounds on the bytes after a leading byte are exact: a leading byte with bytes within the bounds
starts a character (`startsChar_cons_iff`), since bytes that are missing can be supplied.
-/

namespace RubyLex

namespace Utf8

variable {low high b : UInt8} {tails : Nat} {bytes front rest ts : List UInt8} {lead : Lead}

/-! ## Bytes after a leading byte -/

/-- Bytes that may follow a leading byte: the first is within the bounds that it sets, and the
others are within the general ones. -/
def Fits (low high : UInt8) : List UInt8 → Prop
  | [] => True
  | b :: bytes => (low ≤ b ∧ b ≤ high) ∧ Fits 0x80 0xbf bytes

namespace Fits

theorem cons_toNat (h : Fits low high (b :: bytes)) :
    (low.toNat ≤ b.toNat ∧ b.toNat ≤ high.toNat) ∧ Fits 0x80 0xbf bytes := by
  simpa only [Fits, UInt8.le_iff_toNat_le] using h

theorem of_prefix (h : Fits low high bytes) (hfront : front <+: bytes) : Fits low high front := by
  induction front generalizing low high bytes with
  | nil => trivial
  | cons b front ih =>
    obtain ⟨rest, rfl⟩ := hfront
    exact ⟨h.1, ih h.2 (List.prefix_append front rest)⟩

/-- Bytes that fit can be followed by as many more as are missing. -/
theorem exists_append (hbounds : low ≤ high) (h : Fits low high ts) (hle : ts.length ≤ tails) :
    ∃ more, Fits low high (ts ++ more) ∧ (ts ++ more).length = tails := by
  have general : (0x80 : UInt8) ≤ 0xbf := by decide
  induction tails generalizing low high ts with
  | zero =>
    obtain rfl := List.length_eq_zero_iff.mp (Nat.le_zero.mp hle)
    exact ⟨[], trivial, rfl⟩
  | succ tails ih =>
    cases ts with
    | nil =>
      obtain ⟨more, hfits, hmore⟩ := @ih 0x80 0xbf [] general trivial (Nat.zero_le tails)
      exact ⟨low :: more, ⟨⟨UInt8.le_refl low, hbounds⟩, hfits⟩, congrArg (· + 1) hmore⟩
    | cons b ts =>
      obtain ⟨more, hfits, hmore⟩ := ih general h.2 (Nat.le_of_succ_le_succ hle)
      exact ⟨more, ⟨h.1, hfits⟩, congrArg (· + 1) hmore⟩

end Fits

/-- The bytes that were announced are all there, or they end too early, or one does not fit. -/
theorem readTails_cases (low high : UInt8) (bits read tails : Nat) (bytes : List UInt8) :
    (∃ ts rest c, bytes = ts ++ rest ∧ ts.length = tails ∧ Fits low high ts ∧
      readTails low high bits read tails bytes = .char c rest) ∨
    (bytes.length < tails ∧ Fits low high bytes ∧
      readTails low high bits read tails bytes = .incomplete) ∨
    ∃ ts b rest, bytes = ts ++ b :: rest ∧ ts.length < tails ∧ Fits low high ts ∧
      ¬ Fits low high (ts ++ [b]) ∧
      readTails low high bits read tails bytes = .invalid (read + ts.length) := by
  fun_induction readTails low high bits read tails bytes with
  | case1 low high bits read rest => exact .inl ⟨[], rest, _, rfl, rfl, trivial, rfl⟩
  | case2 low high bits read tails => exact .inr (.inl ⟨Nat.succ_pos tails, trivial, rfl⟩)
  | case3 low high bits read tails b bytes hb ih =>
    obtain ⟨ts, rest, c, rfl, hlength, hfits, hread⟩ | ⟨hlength, hfits, hread⟩ |
      ⟨ts, d, rest, rfl, hlength, hfits, hbad, hread⟩ := ih
    · exact .inl ⟨b :: ts, rest, c, rfl, congrArg (· + 1) hlength, ⟨hb, hfits⟩, hread⟩
    · exact .inr (.inl ⟨Nat.succ_lt_succ hlength, ⟨hb, hfits⟩, hread⟩)
    · refine .inr (.inr ⟨b :: ts, d, rest, rfl, Nat.succ_lt_succ hlength, ⟨hb, hfits⟩,
        fun h ↦ hbad h.2, ?_⟩)
      rw [hread, List.length_cons, Nat.add_assoc, Nat.add_comm 1]
  | case4 low high bits read tails b rest hb =>
    exact .inr (.inr ⟨[], b, rest, rfl, Nat.succ_pos tails, trivial, fun h ↦ hb h.1, rfl⟩)

/-! ## The bounds are exact -/

theorem ofNat_eq_of_eq_toNat {n : Nat} {b : UInt8} (h : n = b.toNat) : UInt8.ofNat n = b := by
  rw [h, UInt8.ofNat_toNat]

theorem exists_char_val {n : Nat} (h : n.isValidChar) : ∃ c : Char, c.val.toNat = n :=
  ⟨Char.ofNatAux n h, rfl⟩

section
variable {t u v : UInt8}

theorem exists_char_one (hb : b.toNat < 0x80) : ∃ c, String.utf8EncodeChar c = [b] := by
  obtain ⟨c, hc⟩ := exists_char_val (n := b.toNat) (.inl (by omega))
  refine ⟨c, ?_⟩
  simp only [String.utf8EncodeChar, hc]
  rw [if_pos (by omega), UInt8.ofNat_toNat]

theorem exists_char_two (hb : 0xc2 ≤ b.toNat ∧ b.toNat < 0xe0)
    (ht : 0x80 ≤ t.toNat ∧ t.toNat ≤ 0xbf) : ∃ c, String.utf8EncodeChar c = [b, t] := by
  obtain ⟨c, hc⟩ := exists_char_val (n := b.toNat % 32 * 64 + t.toNat % 64) (.inl (by omega))
  refine ⟨c, ?_⟩
  simp only [String.utf8EncodeChar, hc]
  rw [if_neg (by omega), if_pos (by omega), ofNat_eq_of_eq_toNat (b := b) (by omega),
    ofNat_eq_of_eq_toNat (b := t) (by omega)]

theorem exists_char_three (hb : 0xe0 ≤ b.toNat ∧ b.toNat < 0xf0)
    (ht : 0x80 ≤ t.toNat ∧ t.toNat ≤ 0xbf) (hu : 0x80 ≤ u.toNat ∧ u.toNat ≤ 0xbf)
    (hshort : b.toNat = 0xe0 → 0xa0 ≤ t.toNat) (hsurrogate : b.toNat = 0xed → t.toNat ≤ 0x9f) :
    ∃ c, String.utf8EncodeChar c = [b, t, u] := by
  obtain ⟨c, hc⟩ := exists_char_val
    (n := (b.toNat % 16 * 64 + t.toNat % 64) * 64 + u.toNat % 64) (by unfold Nat.isValidChar; omega)
  refine ⟨c, ?_⟩
  simp only [String.utf8EncodeChar, hc]
  rw [if_neg (by omega), if_neg (by omega), if_pos (by omega),
    ofNat_eq_of_eq_toNat (b := b) (by omega), ofNat_eq_of_eq_toNat (b := t) (by omega),
    ofNat_eq_of_eq_toNat (b := u) (by omega)]

theorem exists_char_four (hb : 0xf0 ≤ b.toNat ∧ b.toNat < 0xf5)
    (ht : 0x80 ≤ t.toNat ∧ t.toNat ≤ 0xbf) (hu : 0x80 ≤ u.toNat ∧ u.toNat ≤ 0xbf)
    (hv : 0x80 ≤ v.toNat ∧ v.toNat ≤ 0xbf)
    (hshort : b.toNat = 0xf0 → 0x90 ≤ t.toNat) (hlast : b.toNat = 0xf4 → t.toNat ≤ 0x8f) :
    ∃ c, String.utf8EncodeChar c = [b, t, u, v] := by
  obtain ⟨c, hc⟩ := exists_char_val
    (n := ((b.toNat % 8 * 64 + t.toNat % 64) * 64 + u.toNat % 64) * 64 + v.toNat % 64)
    (by unfold Nat.isValidChar; omega)
  refine ⟨c, ?_⟩
  simp only [String.utf8EncodeChar, hc]
  rw [if_neg (by omega), if_neg (by omega), if_neg (by omega),
    ofNat_eq_of_eq_toNat (b := b) (by omega), ofNat_eq_of_eq_toNat (b := t) (by omega),
    ofNat_eq_of_eq_toNat (b := u) (by omega), ofNat_eq_of_eq_toNat (b := v) (by omega)]

end

/-- A leading byte announces three bytes at most, and its bounds leave something between them. -/
theorem Lead.bounds (h : ofByte? b = some lead) : lead.low ≤ lead.high ∧ lead.tails ≤ 3 := by
  have general : (0x80 : UInt8) ≤ 0xbf := by decide
  -- no byte is at both ends of its row, so that at most one of the two bounds is drawn in
  have three : (if b = 0xe0 then 0xa0 else 0x80 : UInt8) ≤ if b = 0xed then 0x9f else 0xbf := by
    by_cases hb : b = 0xe0
    · subst hb
      decide
    · rw [if_neg hb]
      split <;> decide
  have four : (if b = 0xf0 then 0x90 else 0x80 : UInt8) ≤ if b = 0xf4 then 0x8f else 0xbf := by
    by_cases hb : b = 0xf0
    · subst hb
      decide
    · rw [if_neg hb]
      split <;> decide
  unfold ofByte? at h
  split at h
  · cases h
    exact ⟨UInt8.le_refl 0, by simp⟩
  split at h
  · cases h
  split at h
  · cases h
    exact ⟨general, by simp⟩
  split at h
  · cases h
    exact ⟨three, by simp⟩
  split at h
  · cases h
    exact ⟨four, by simp⟩
  · cases h

/-- A leading byte with as many bytes as it announces within their bounds are the bytes of a
character. -/
theorem exists_utf8EncodeChar (hlead : Lead.ofByte? b = some lead)
    (hfits : Fits lead.low lead.high ts) (hlength : ts.length = lead.tails) :
    ∃ c, String.utf8EncodeChar c = b :: ts := by
  unfold Lead.ofByte? at hlead
  simp only [UInt8.lt_iff_toNat_lt, ← UInt8.toNat_inj, UInt8.reduceToNat] at hlead
  split at hlead
  · next h =>
    obtain rfl := Option.some.inj hlead
    obtain rfl := List.length_eq_zero_iff.mp hlength
    exact exists_char_one h
  split at hlead
  · cases hlead
  split at hlead
  · obtain rfl := Option.some.inj hlead
    obtain ⟨t, rfl⟩ := List.length_eq_one_iff.mp hlength
    exact exists_char_two (by omega) hfits.cons_toNat.1
  split at hlead
  · obtain rfl := Option.some.inj hlead
    obtain ⟨t, u, rfl⟩ := List.length_eq_two.mp hlength
    obtain ⟨ht, hu⟩ := hfits.cons_toNat
    simp only [apply_ite UInt8.toNat, UInt8.reduceToNat] at ht
    have hbounds : (0x80 ≤ t.toNat ∧ t.toNat ≤ 0xbf) ∧ (b.toNat = 0xe0 → 0xa0 ≤ t.toNat) ∧
        (b.toNat = 0xed → t.toNat ≤ 0x9f) := by
      grind
    exact exists_char_three (by omega) hbounds.1 hu.cons_toNat.1 hbounds.2.1 hbounds.2.2
  split at hlead
  · obtain rfl := Option.some.inj hlead
    obtain ⟨t, u, v, rfl⟩ := List.length_eq_three.mp hlength
    obtain ⟨ht, hu⟩ := hfits.cons_toNat
    obtain ⟨hu, hv⟩ := hu.cons_toNat
    simp only [apply_ite UInt8.toNat, UInt8.reduceToNat] at ht
    have hbounds : (0x80 ≤ t.toNat ∧ t.toNat ≤ 0xbf) ∧ (b.toNat = 0xf0 → 0x90 ≤ t.toNat) ∧
        (b.toNat = 0xf4 → t.toNat ≤ 0x8f) := by
      grind
    exact exists_char_four (by omega) hbounds.1 hu hv.cons_toNat.1 hbounds.2.1 hbounds.2.2
  · cases hlead

/-- Bytes that are the front of the bytes of some character, or all of them. -/
def StartsChar (bytes : List UInt8) : Prop :=
  ∃ c, bytes <+: String.utf8EncodeChar c

/-- Bytes that are the front of the bytes of some character, and not all of them. -/
def CutsChar (bytes : List UInt8) : Prop :=
  ∃ c, bytes <+: String.utf8EncodeChar c ∧ bytes ≠ String.utf8EncodeChar c

theorem readChar_of_prefix {c : Char} (h : String.utf8EncodeChar c <+: b :: bytes) :
    ∃ rest, readChar b bytes = .char c rest := by
  obtain ⟨rest, hrest⟩ := h
  obtain ⟨b', ts, hc, hread⟩ := readChar_utf8EncodeChar c rest
  rw [hc, List.cons_append] at hrest
  obtain ⟨rfl, rfl⟩ := List.cons_eq_cons.mp hrest
  exact ⟨rest, hread⟩

theorem startsChar_cons_iff :
    StartsChar (b :: ts) ↔
      ∃ lead, Lead.ofByte? b = some lead ∧ ts.length ≤ lead.tails ∧
        Fits lead.low lead.high ts := by
  constructor
  · rintro ⟨c, hc⟩
    obtain ⟨b', bytes, hbytes, hread⟩ := readChar_utf8EncodeChar c []
    rw [hbytes, List.cons_prefix_cons] at hc
    obtain ⟨rfl, hts⟩ := hc
    rw [List.append_nil, readChar] at hread
    cases hlead : Lead.ofByte? b with
    | none => simp [hlead] at hread
    | some lead =>
      simp only [hlead] at hread
      obtain ⟨all, rest, c', hall, hlength, hfits, hread'⟩ | ⟨-, -, hread'⟩ |
        ⟨_, _, _, -, -, -, -, hread'⟩ :=
        readTails_cases lead.low lead.high lead.bits 1 lead.tails bytes
      · obtain ⟨-, rfl⟩ := Front.char.inj (hread'.symm.trans hread)
        rw [List.append_nil] at hall
        subst hall
        exact ⟨lead, rfl, hlength ▸ hts.length_le, hfits.of_prefix hts⟩
      · cases hread'.symm.trans hread
      · cases hread'.symm.trans hread
  · rintro ⟨lead, hlead, hle, hfits⟩
    obtain ⟨more, hfits, hlength⟩ := hfits.exists_append (Lead.bounds hlead).1 hle
    obtain ⟨c, hc⟩ := exists_utf8EncodeChar hlead hfits hlength
    exact ⟨c, more, hc.symm⟩

/-! ## The front of some bytes -/

/-- The lengths of the fronts of some bytes that have a property. -/
def frontLengths (p : List UInt8 → Prop) (bytes : List UInt8) : Set Nat :=
  {n | ∃ front, front <+: bytes ∧ p front ∧ front.length = n}

/-- A byte that does not fit ends the longest front that starts a character. -/
theorem isGreatest_startsChar_of_not_fits (hlead : Lead.ofByte? b = some lead)
    (hlt : ts.length < lead.tails) (hfits : Fits lead.low lead.high ts) {d : UInt8}
    (hbad : ¬ Fits lead.low lead.high (ts ++ [d])) :
    IsGreatest (frontLengths StartsChar (b :: (ts ++ d :: rest))) (ts.length + 1) := by
  constructor
  · exact ⟨b :: ts, List.prefix_append (b :: ts) (d :: rest),
      startsChar_cons_iff.mpr ⟨lead, hlead, Nat.le_of_lt hlt, hfits⟩, rfl⟩
  · rintro n ⟨front, hfront, hstarts, rfl⟩
    rcases front with _ | ⟨b', front⟩
    · exact Nat.zero_le _
    obtain ⟨rfl, htail⟩ := List.cons_prefix_cons.mp hfront
    obtain ⟨lead', hlead', -, hfits'⟩ := startsChar_cons_iff.mp hstarts
    obtain rfl : lead = lead' := Option.some.inj (hlead.symm.trans hlead')
    -- a longer front would hold the byte that does not fit
    refine Nat.succ_le_succ (Nat.le_of_not_lt fun hlonger ↦ hbad (hfits'.of_prefix ?_))
    have hnext : ts ++ [d] <+: ts ++ d :: rest := ⟨rest, by simp⟩
    refine List.prefix_of_prefix_length_le hnext htail ?_
    rw [List.length_append]
    exact hlonger

theorem isGreatest_startsChar_of_no_lead (hlead : Lead.ofByte? b = none) :
    IsGreatest (frontLengths StartsChar (b :: bytes)) 0 := by
  constructor
  · exact ⟨[], List.nil_prefix, ⟨'a', List.nil_prefix⟩, rfl⟩
  · rintro n ⟨front, hfront, hstarts, rfl⟩
    rcases front with _ | ⟨b', front⟩
    · exact Nat.le_refl _
    obtain ⟨rfl, -⟩ := List.cons_prefix_cons.mp hfront
    obtain ⟨lead, hlead', -⟩ := startsChar_cons_iff.mp hstarts
    rw [hlead] at hlead'
    cases hlead'

/-- Some bytes start with a character, or they end inside one, or they go wrong behind the longest
front that starts a character. -/
theorem readChar_cases (b : UInt8) (bytes : List UInt8) :
    (∃ c rest, b :: bytes = String.utf8EncodeChar c ++ rest ∧ readChar b bytes = .char c rest) ∨
    (CutsChar (b :: bytes) ∧ readChar b bytes = .incomplete) ∨
    ∃ m, IsGreatest (frontLengths StartsChar (b :: bytes)) m ∧ m < bytes.length + 1 ∧ m ≤ 3 ∧
      readChar b bytes = .invalid (max 1 m) := by
  cases hlead : Lead.ofByte? b with
  | none =>
    refine .inr (.inr ⟨0, isGreatest_startsChar_of_no_lead hlead, Nat.succ_pos _, by decide, ?_⟩)
    rw [readChar, hlead]
    rfl
  | some lead =>
    have hchar : readChar b bytes =
        readTails lead.low lead.high lead.bits 1 lead.tails bytes := by
      rw [readChar, hlead]
    obtain ⟨ts, rest, c, rfl, hlength, hfits, -⟩ | ⟨hlt, hfits, hread⟩ |
      ⟨ts, d, rest, rfl, hlt, hfits, hbad, hread⟩ :=
      readTails_cases lead.low lead.high lead.bits 1 lead.tails bytes
    -- the character that is read is found by way of the one that has these bytes
    · obtain ⟨c, hc⟩ := exists_utf8EncodeChar hlead hfits hlength
      obtain ⟨b', ts', hc', hread⟩ := readChar_utf8EncodeChar c rest
      obtain ⟨rfl, rfl⟩ := List.cons_eq_cons.mp (hc.symm.trans hc')
      exact .inl ⟨c, rest, by rw [hc]; rfl, hread⟩
    · obtain ⟨c, hc⟩ := startsChar_cons_iff.mpr ⟨lead, hlead, Nat.le_of_lt hlt, hfits⟩
      refine .inr (.inl ⟨⟨c, hc, fun hall ↦ ?_⟩, hchar.trans hread⟩)
      obtain ⟨rest, hread'⟩ := readChar_of_prefix ⟨[], by rw [List.append_nil, hall]⟩
      cases (hchar.trans hread).symm.trans hread'
    · refine .inr (.inr ⟨ts.length + 1, isGreatest_startsChar_of_not_fits hlead hlt hfits hbad,
        ?_, Nat.le_trans hlt (Lead.bounds hlead).2, ?_⟩)
      · simp
      · rw [hchar, hread, Nat.max_eq_right (Nat.succ_pos _), Nat.add_comm]

theorem eq_append_of_readChar {c : Char} (h : readChar b bytes = .char c rest) :
    b :: bytes = String.utf8EncodeChar c ++ rest := by
  obtain ⟨c', rest', hbytes, hread⟩ | ⟨-, hread⟩ | ⟨_, -, -, -, hread⟩ := readChar_cases b bytes
  · obtain ⟨rfl, rfl⟩ := Front.char.inj (h.symm.trans hread)
    exact hbytes
  · cases h.symm.trans hread
  · cases h.symm.trans hread

/-! ## Whole texts -/

/-- The bytes of some text. -/
def IsText (bytes : List UInt8) : Prop :=
  ∃ s : String, bytes = encode s.toList

theorem encode_cons (c : Char) (cs : List Char) :
    encode (c :: cs) = String.utf8EncodeChar c ++ encode cs :=
  List.flatMap_cons

/-- All bytes are decoded, or those of a text are and what follows it starts with no character. -/
theorem decodeFrom_cases (index : Nat) (bytes : List UInt8) :
    (∃ cs, bytes = encode cs ∧ decodeFrom index bytes = .ok cs) ∨
    ∃ cs b rest, bytes = encode cs ++ b :: rest ∧
      (readChar b rest = .incomplete ∧
          decodeFrom index bytes = .error (.incomplete (index + (encode cs).length)) ∨
        ∃ n, readChar b rest = .invalid n ∧
          decodeFrom index bytes = .error (.invalid (index + (encode cs).length) n)) := by
  fun_induction decodeFrom index bytes with
  | case1 index => exact .inl ⟨[], rfl, rfl⟩
  | case2 index b bytes c rest hread ih =>
    have hindex (cs : List Char) : index + c.utf8Size + (encode cs).length =
        index + (encode (c :: cs)).length := by
      rw [encode_cons, List.length_append, String.length_utf8EncodeChar, Nat.add_assoc]
    rw [eq_append_of_readChar hread]
    obtain ⟨cs, rfl, hcs⟩ | ⟨cs, d, after, rfl, hstop⟩ := ih
    · exact .inl ⟨c :: cs, rfl, by rw [hcs]; rfl⟩
    · refine .inr ⟨c :: cs, d, after, (List.append_assoc ..).symm, ?_⟩
      rw [← hindex]
      rcases hstop with ⟨hd, herror⟩ | ⟨n, hd, herror⟩
      · exact .inl ⟨hd, by rw [herror]; rfl⟩
      · exact .inr ⟨n, hd, by rw [herror]; rfl⟩
  | case3 index b bytes n hread => exact .inr ⟨[], b, bytes, rfl, .inr ⟨n, hread, rfl⟩⟩
  | case4 index b bytes hread => exact .inr ⟨[], b, bytes, rfl, .inl ⟨hread, rfl⟩⟩

theorem utf8EncodeChar_append_inj {c c' : Char} {as bs : List UInt8}
    (h : String.utf8EncodeChar c ++ as = String.utf8EncodeChar c' ++ bs) : c = c' ∧ as = bs := by
  obtain ⟨b, ts, hc, hread⟩ := readChar_utf8EncodeChar c as
  obtain ⟨b', ts', hc', hread'⟩ := readChar_utf8EncodeChar c' bs
  rw [hc, hc', List.cons_append, List.cons_append] at h
  obtain ⟨rfl, hts⟩ := List.cons_eq_cons.mp h
  rw [hts] at hread
  exact Front.char.inj (hread.symm.trans hread')

/-- A text is the longest one in front of some bytes if what follows it starts with no character. -/
theorem length_encode_le (h : ∀ c after, readChar b rest ≠ .char c after) {cs cs' : List Char}
    (hfront : encode cs' <+: encode cs ++ b :: rest) :
    (encode cs').length ≤ (encode cs).length := by
  induction cs generalizing cs' with
  | nil =>
    cases cs' with
    | nil => exact Nat.le_refl _
    | cons c cs' =>
      rw [encode_cons] at hfront
      obtain ⟨after, hread⟩ := readChar_of_prefix ((List.prefix_append _ _).trans hfront)
      exact absurd hread (h c after)
  | cons c cs ih =>
    cases cs' with
    | nil => exact Nat.zero_le _
    | cons c' cs' =>
      obtain ⟨after, hafter⟩ := hfront
      rw [encode_cons, encode_cons, List.append_assoc, List.append_assoc] at hafter
      obtain ⟨rfl, hrest⟩ := utf8EncodeChar_append_inj hafter
      rw [encode_cons, encode_cons, List.length_append, List.length_append]
      exact Nat.add_le_add_left (ih ⟨after, hrest⟩) _

/-- The byte at which the first bad sequence starts. -/
def Fault.index : Fault → Nat
  | .invalid index _ | .incomplete index => index

/-- What a fault says of the bytes that it was found in.  The bytes before its index are the longest
front that is a text.  It is incomplete just if those behind it are cut off inside a character; else
it counts how many of them could have started one, and one at least. -/
structure Fault.Describes (fault : Fault) (bytes : List UInt8) : Prop where
  index : IsGreatest (frontLengths IsText bytes) fault.index
  incomplete : fault = .incomplete fault.index ↔ CutsChar (bytes.drop fault.index)
  length : ∀ n, fault = .invalid fault.index n → 1 ≤ n ∧ n ≤ 3 ∧
    ∃ m, IsGreatest (frontLengths StartsChar (bytes.drop fault.index)) m ∧ n = max 1 m

theorem isGreatest_isText (h : ∀ c after, readChar b rest ≠ .char c after) (cs : List Char) :
    IsGreatest (frontLengths IsText (encode cs ++ b :: rest)) (encode cs).length := by
  constructor
  · refine ⟨encode cs, List.prefix_append _ _, ⟨String.ofList cs, ?_⟩, rfl⟩
    rw [String.toList_ofList]
  · rintro n ⟨front, hfront, ⟨s, rfl⟩, rfl⟩
    exact length_encode_le h hfront

theorem describes_incomplete (h : readChar b rest = .incomplete) (cs : List Char) :
    (Fault.incomplete (encode cs).length).Describes (encode cs ++ b :: rest) where
  index := isGreatest_isText (fun c after hread ↦ nomatch h.symm.trans hread) cs
  incomplete := by
    obtain ⟨c, after, -, hread⟩ | ⟨hcuts, -⟩ | ⟨m, -, -, -, hread⟩ := readChar_cases b rest
    · cases h.symm.trans hread
    · rw [Fault.index, List.drop_left]
      exact iff_of_true rfl hcuts
    · cases h.symm.trans hread
  length := by
    intro n hn
    cases hn

theorem describes_invalid {n : Nat} (h : readChar b rest = .invalid n) (cs : List Char) :
    (Fault.invalid (encode cs).length n).Describes (encode cs ++ b :: rest) := by
  obtain ⟨c, after, -, hread⟩ | ⟨-, hread⟩ | ⟨m, hm, hlt, hle, hread⟩ := readChar_cases b rest
  · cases h.symm.trans hread
  · cases h.symm.trans hread
  obtain rfl : n = max 1 m := Front.invalid.inj (h.symm.trans hread)
  refine ⟨isGreatest_isText (fun c after hread ↦ nomatch h.symm.trans hread) cs, ?_, ?_⟩
  · rw [Fault.index, List.drop_left]
    refine iff_of_false (fun hfault ↦ nomatch hfault) ?_
    -- the longest front that starts a character is not all of the bytes
    rintro ⟨c, hc, -⟩
    exact absurd (hm.2 ⟨b :: rest, List.prefix_rfl, ⟨c, hc⟩, rfl⟩) (Nat.not_le_of_lt hlt)
  · intro n hn
    obtain rfl : max 1 m = n := (Fault.invalid.inj hn).2
    rw [Fault.index, List.drop_left]
    exact ⟨Nat.le_max_left 1 m, Nat.max_le.mpr ⟨by decide, hle⟩, m, hm, rfl⟩

/-- Bytes are decoded to the text that they are the bytes of, or they are those of no text, and the
fault says where and how. -/
theorem decode_cases (bytes : List UInt8) :
    (∃ s : String, bytes = encode s.toList ∧ decode bytes = .ok s) ∨
    ¬ IsText bytes ∧ ∃ fault, fault.Describes bytes ∧ decode bytes = .error fault := by
  unfold decode
  obtain ⟨cs, rfl, hcs⟩ | ⟨cs, b, rest, rfl, hstop⟩ := decodeFrom_cases 0 bytes
  · exact .inl ⟨String.ofList cs, by rw [String.toList_ofList], by rw [hcs]; rfl⟩
  obtain ⟨fault, hfault, hindex, herror⟩ : ∃ fault : Fault,
      fault.Describes (encode cs ++ b :: rest) ∧ fault.index = (encode cs).length ∧
        decodeFrom 0 (encode cs ++ b :: rest) = .error fault := by
    rw [Nat.zero_add] at hstop
    rcases hstop with ⟨hread, herror⟩ | ⟨n, hread, herror⟩
    · exact ⟨_, describes_incomplete hread cs, rfl, herror⟩
    · exact ⟨_, describes_invalid hread cs, rfl, herror⟩
  refine .inr ⟨fun htext ↦ ?_, fault, hfault, by rw [herror]; rfl⟩
  have hle := hfault.index.2 ⟨_, List.prefix_rfl, htext, rfl⟩
  rw [hindex, List.length_append, List.length_cons] at hle
  omega

end Utf8

/-! ## Loading -/

namespace Source

variable {w : World} {path : Path} {bytes : List UInt8}

/-- The bytes that an input stands for: what is left of standard input, or a file. -/
def Supplies (w : World) (path : Path) (bytes : List UInt8) : Prop :=
  if path.isStandardInput then w.input = bytes
  else w.files.stat path.route = .ok (.file bytes)

theorem fetch_of_supplies (h : Supplies w path bytes) :
    fetch w.files w.input path = decode (listedName path) bytes := by
  unfold Supplies at h
  unfold fetch listedName
  split
  · next hpath =>
    rw [if_pos hpath] at h
    rw [h]
  · next hpath =>
    rw [if_neg hpath] at h
    rw [readFile, h]

/-- An input is loaded just if its bytes are those of a text, and then as this text.  Else the
failure is one of files; it names the input and says where and how its bytes break off. -/
theorem load_accepts_texts (h : Supplies w path bytes) :
    ((∃ source after, (load path).run w = .ok source after) ↔ Utf8.IsText bytes) ∧
    (∀ source after, (load path).run w = .ok source after →
      source.name = listedName path ∧ Utf8.encode source.content.toList = bytes) ∧
    (¬ Utf8.IsText bytes → ∃ failure fault after, (load path).run w = .error failure after ∧
      failure = .inputNotUtf8 (listedName path) fault ∧ failure.category = .file ∧
      failure.detail =
        "Input is not valid UTF-8: " ++ listedName path ++ " (" ++ fault.message ++ ")" ∧
      fault.Describes bytes) := by
  obtain ⟨log, hrun⟩ := run_load path w
  rw [fetch_of_supplies h, decode] at hrun
  obtain ⟨s, htext, hdecode⟩ | ⟨hnot, fault, hfault, hdecode⟩ := Utf8.decode_cases bytes
  · simp only [hdecode] at hrun
    rw [hrun]
    refine ⟨iff_of_true ⟨_, _, rfl⟩ ⟨s, htext⟩, ?_, fun hnot ↦ absurd ⟨s, htext⟩ hnot⟩
    intro source after hok
    obtain ⟨rfl, -⟩ := EStateM.Result.ok.inj hok
    exact ⟨rfl, htext.symm⟩
  · simp only [hdecode] at hrun
    rw [hrun]
    refine ⟨iff_of_false ?_ hnot, ?_, ?_⟩
    · rintro ⟨source, after, hok⟩
      cases hok
    · intro source after hok
      cases hok
    · intro _
      exact ⟨.inputNotUtf8 (listedName path) fault, fault, _, rfl, rfl, rfl, rfl, hfault⟩

/-- A byte order mark and a line ending on standard input, and a file with a character of which the
last byte is wrong. -/
theorem load_accepts_texts_mark :
    let w : World :=
      ⟨⟨[(["a.rb"], .file [0x61, 0xe2, 0x82, 0x41])], []⟩, [0xef, 0xbb, 0xbf, 0x0d], "", []⟩
    (∃ source after, (load ⟨"-"⟩).run w = .ok source after) ∧
    ∃ failure fault after, (load ⟨"a.rb"⟩).run w = .error failure after ∧
      failure = .inputNotUtf8 "a.rb" fault ∧ failure.category = .file ∧
      failure.detail = "Input is not valid UTF-8: " ++ "a.rb" ++ " (" ++ fault.message ++ ")" ∧
      fault.Describes [0x61, 0xe2, 0x82, 0x41] := by
  intro w
  have hinput : Supplies w ⟨"-"⟩ [0xef, 0xbb, 0xbf, 0x0d] := by
    rw [Supplies, if_pos (by decide)]
  have hfile : Supplies w ⟨"a.rb"⟩ [0x61, 0xe2, 0x82, 0x41] := by
    rw [Supplies, if_neg (by decide)]
    decide
  have htext : Utf8.IsText [0xef, 0xbb, 0xbf, 0x0d] := ⟨"\uFEFF\r", by decide⟩
  have hnot : ¬ Utf8.IsText [0x61, 0xe2, 0x82, 0x41] := by
    rintro ⟨s, hs⟩
    have hdecode := Utf8.decode_encode s
    rw [← hs] at hdecode
    have hfault : Utf8.decode [0x61, 0xe2, 0x82, 0x41] = .error (.invalid 1 2) := by decide +kernel
    cases hfault.symm.trans hdecode
  exact ⟨(load_accepts_texts hinput).1.mpr htext, (load_accepts_texts hfile).2.2 hnot⟩

end Source

end RubyLex

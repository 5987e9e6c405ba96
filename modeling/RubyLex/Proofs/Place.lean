import Mathlib.Data.String.Basic
import RubyLex.Cursor
import RubyLex.Lexeme

/-!
# Where a cursor stands

A cursor counts bytes, and everything that is proved about it is proved about characters.  The
relation `cur.At pre suf` joins the two: the source reads `pre ++ suf`, and the cursor stands
between the parts.  This file says how the position behaves under each step of a cursor; what the
cursor remembers beside its position is said only where a step uses it.
-/

namespace RubyLex

/-! ## Byte offsets of a split text -/

theorem width_eq_utf8Len (cs : List Char) : width cs = String.utf8Len cs := by
  induction cs with
  | nil => rfl
  | cons c cs ih => rw [width_cons, String.utf8Len_cons, ih, Nat.add_comm]

theorem utf8ByteSize_ofList (cs : List Char) : (String.ofList cs).utf8ByteSize = width cs := by
  rw [String.utf8ByteSize_ofList, width_eq_utf8Len]

theorem length_le_width (cs : List Char) : cs.length ≤ width cs := by
  induction cs with
  | nil => exact Nat.le_refl 0
  | cons c cs ih =>
    have hc := c.utf8Size_pos
    simp only [List.length_cons, width_cons]
    omega

theorem get?_width (pre suf : List Char) :
    String.Pos.Raw.get? (String.ofList (pre ++ suf)) ⟨width pre⟩ = suf.head? := by
  rw [width_eq_utf8Len]
  exact String.get?_of_valid pre suf

/-- A byte below 128 at the front of a character is the whole character. -/
theorem ofUInt8_of_head?_utf8EncodeChar {c : Char} {b : UInt8}
    (h : (String.utf8EncodeChar c).head? = some b) (hb : b < 128) : Char.ofUInt8 b = c := by
  rw [UInt8.lt_iff_toNat_lt] at hb
  simp only [String.utf8EncodeChar] at h
  split at h
  · rename_i hv
    obtain rfl := Option.some.inj h
    ext
    change (UInt8.ofNat c.val.toNat).toUInt32.toNat = c.val.toNat
    simpa using Nat.lt_of_le_of_lt hv (by decide : 127 < 256)
  · -- The first byte of a longer character carries a mark of at least 192.
    exfalso
    split at h
    · obtain rfl := Option.some.inj h
      simp at hb
      omega
    · split at h
      all_goals
        obtain rfl := Option.some.inj h
        simp at hb
        omega

/-- The byte behind a part is the first byte of the next character. -/
theorem getUTF8Byte_width (pre : List Char) (c : Char) (suf : List Char)
    (h : (⟨width pre⟩ : String.Pos.Raw) < (String.ofList (pre ++ c :: suf)).rawEndPos) :
    (String.utf8EncodeChar c).head? =
      some ((String.ofList (pre ++ c :: suf)).getUTF8Byte ⟨width pre⟩ h) := by
  have hsize : pre.utf8Encode.size = width pre := by
    rw [← String.toByteArray_ofList]
    exact utf8ByteSize_ofList pre
  have hpos : 0 < (String.utf8EncodeChar c).length := by
    rw [String.length_utf8EncodeChar]
    exact c.utf8Size_pos
  simp only [String.getUTF8Byte_eq_getElem, String.toByteArray_ofList, List.utf8Encode_append]
  rw [ByteArray.getElem_append_right (Nat.le_of_eq hsize)]
  simp only [hsize, Nat.sub_self, List.utf8Encode_cons (l := suf), List.utf8Encode_singleton]
  rw [ByteArray.getElem_append_left (by simpa using hpos)]
  simp [List.head?_eq_getElem?]

/-- The end of a part is a character boundary. -/
theorem isValid_width (pre suf : List Char) :
    String.Pos.Raw.isValid (String.ofList (pre ++ suf)) ⟨width pre⟩ = true := by
  rw [String.Pos.Raw.isValid_eq_true_iff, String.Pos.Raw.isValid_iff_exists_append]
  refine ⟨String.ofList pre, String.ofList suf, String.ofList_append, ?_⟩
  rw [String.rawEndPos_ofList, width_eq_utf8Len]

theorem extract_width (pre mid post : List Char) :
    String.Pos.Raw.extract (String.ofList (pre ++ mid ++ post)) ⟨width pre⟩
      ⟨width (pre ++ mid)⟩ = String.ofList mid := by
  rw [width_append, width_eq_utf8Len, width_eq_utf8Len]
  exact String.extract_of_valid pre mid post

/-- The source from a byte offset on. -/
def textFrom (s : String) (start : Nat) : String :=
  String.Pos.Raw.extract s ⟨start⟩ ⟨s.utf8ByteSize⟩

theorem textFrom_width (pre suf : List Char) :
    textFrom (String.ofList (pre ++ suf)) (width pre) = String.ofList suf := by
  have h := extract_width pre suf []
  rw [List.append_nil] at h
  rw [textFrom, utf8ByteSize_ofList, h]

namespace Cursor

/-- The cursor has read `pre` and has yet to read `suf`. -/
structure At (cur : Cursor) (pre suf : List Char) : Prop where
  source_eq : cur.source = String.ofList (pre ++ suf)
  position_eq : cur.position = width pre

theorem at_ofSource (source : String) : (ofSource source).At [] source.toList where
  source_eq := by simp [ofSource]
  position_eq := rfl

namespace At

variable {cur : Cursor} {pre suf : List Char}

theorem size_eq (h : cur.At pre suf) : cur.source.utf8ByteSize = width pre + width suf := by
  rw [h.source_eq, utf8ByteSize_ofList, width_append]

/-- The unread bytes are those of the unread characters. -/
theorem unread_eq (h : cur.At pre suf) : cur.unread = width suf := by
  rw [unread, h.size_eq, h.position_eq, Nat.add_sub_cancel_left]

theorem peek_eq (h : cur.At pre suf) : cur.peek = suf.head? := by
  obtain ⟨source, position, current, canRetreat⟩ := cur
  obtain rfl : source = String.ofList (pre ++ suf) := h.source_eq
  obtain rfl : position = width pre := h.position_eq
  have hsize : (String.ofList (pre ++ suf)).utf8ByteSize = width pre + width suf := h.size_eq
  unfold peek
  dsimp only
  cases suf with
  | nil =>
    rw [dif_neg (by rw [hsize]; exact Nat.lt_irrefl _)]
    rfl
  | cons c suf =>
    have hc := c.utf8Size_pos
    rw [dif_pos (by rw [hsize, width_cons]; omega)]
    split
    · rename_i hb
      exact congrArg some (ofUInt8_of_head?_utf8EncodeChar (getUTF8Byte_width pre c suf _) hb)
    · exact get?_width pre (c :: suf)

/-- Reading the next character. -/
theorem advance_eq {c : Char} (h : cur.At pre (c :: suf)) :
    cur.advance =
      { cur with position := cur.position + c.utf8Size, current := some c, canRetreat := true } := by
  rw [advance, h.peek_eq]
  rfl

theorem advance {c : Char} (h : cur.At pre (c :: suf)) : cur.advance.At (pre ++ [c]) suf := by
  rw [h.advance_eq]
  refine ⟨?_, ?_⟩
  · rw [h.source_eq, List.append_assoc, List.singleton_append]
  · simp [h.position_eq]

theorem advance_nil (h : cur.At pre []) : cur.advance.At pre [] := by
  rw [Cursor.advance, h.peek_eq]
  exact ⟨h.source_eq, h.position_eq⟩

/-- A character that was just read starts where the cursor stood before. -/
theorem currentStart_advance {c : Char} (h : cur.At pre (c :: suf)) :
    cur.advance.currentStart = width pre := by
  rw [h.advance_eq, h.position_eq]
  change width pre + c.utf8Size - c.utf8Size = width pre
  rw [Nat.add_sub_cancel]

/-- A character that was just read can be pushed back, and the cursor is then where it was. -/
theorem retreat_advance {c : Char} (h : cur.At pre (c :: suf)) :
    ∃ back, cur.advance.retreat = .ok back ∧ back.At pre (c :: suf) := by
  rw [h.advance_eq]
  refine ⟨_, rfl, h.source_eq, ?_⟩
  change cur.position + c.utf8Size - c.utf8Size = width pre
  rw [Nat.add_sub_cancel, h.position_eq]

/-- A cursor stands between two characters. -/
theorem isValid_position (h : cur.At pre suf) :
    String.Pos.Raw.isValid cur.source ⟨cur.position⟩ = true := by
  rw [h.source_eq, h.position_eq]
  exact isValid_width pre suf

theorem remaining_eq (h : cur.At pre suf) : cur.remaining = String.ofList suf := by
  have htext := textFrom_width pre suf
  rwa [← h.source_eq, ← h.position_eq] at htext

theorem matchChar_cons {c : Char} (h : cur.At pre (c :: suf)) :
    cur.matchChar c = (true, cur.advance) := by
  rw [matchChar, if_pos (by rw [h.peek_eq]; rfl)]

theorem matchChar_of_ne {c : Char} (h : cur.At pre suf) (hc : suf.head? ≠ some c) :
    cur.matchChar c = (false, cur) := by
  rw [matchChar, if_neg (by rw [h.peek_eq]; exact hc)]

/-- The text that was read last, cut out by its offsets. -/
theorem sliceFrom_eq {mid : List Char} (h : cur.At (pre ++ mid) suf) :
    cur.sliceFrom (width pre) = .ok (String.ofList mid) := by
  have hstart : String.Pos.Raw.isValid cur.source ⟨width pre⟩ = true := by
    rw [h.source_eq, List.append_assoc]
    exact isValid_width pre (mid ++ suf)
  have hle : width pre ≤ cur.position := by
    rw [h.position_eq, width_append]
    exact Nat.le_add_right ..
  rw [sliceFrom, if_pos ⟨hle, hstart, h.isValid_position⟩, h.source_eq, h.position_eq,
    extract_width]

end At

end Cursor

end RubyLex

import RubyLex.Proofs.Place

/-!
# A cursor is a zipper

A cursor keeps a byte offset, the character it read last and a flag in step.  A `Zipper` says what
it does to characters: a text is cut in two, and the last event decides what can be pushed back.
No bytes occur in it, except that it answers questions about offsets.

Whatever is asked of a cursor, and in whatever order, it answers as the zipper does.  One step is
`Represents.perform`, and `Represents.run` follows from it for every sequence of operations.
-/

namespace RubyLex

/-! ## Readers and what is asked of them -/

/-- What can be asked of something that reads a source. -/
structure Reader (σ : Type) where
  advance : σ → σ
  retreat : σ → Except Cursor.Fault σ
  matchChar : σ → Char → Bool × σ
  peek : σ → Option Char
  current : σ → Option Char
  currentStart : σ → Nat
  position : σ → Nat
  atEnd : σ → Bool
  remaining : σ → String
  source : σ → String
  sliceFrom : σ → Nat → Except Cursor.Fault String

namespace Reader

/-- A question to a reader, or a move. -/
inductive Operation where
  | advance
  | retreat
  | matchChar (c : Char)
  | peek
  | current
  | currentStart
  | position
  | atEnd
  | remaining
  | source
  | sliceFrom (start : Nat)
deriving DecidableEq, Repr

inductive Answer where
  | done
  | char (c? : Option Char)
  | flag (b : Bool)
  | offset (n : Nat)
  | text (s : String)
  | fault (fault : Cursor.Fault)
deriving DecidableEq, Repr

variable {σ : Type} (reader : Reader σ)

/-- The answer to an operation and the state after it. What is refused changes nothing. -/
def perform (s : σ) : Operation → Answer × σ
  | .advance => (.char (reader.current (reader.advance s)), reader.advance s)
  | .retreat =>
    match reader.retreat s with
    | .ok back => (.done, back)
    | .error fault => (.fault fault, s)
  | .matchChar c => (.flag (reader.matchChar s c).1, (reader.matchChar s c).2)
  | .peek => (.char (reader.peek s), s)
  | .current => (.char (reader.current s), s)
  | .currentStart => (.offset (reader.currentStart s), s)
  | .position => (.offset (reader.position s), s)
  | .atEnd => (.flag (reader.atEnd s), s)
  | .remaining => (.text (reader.remaining s), s)
  | .source => (.text (reader.source s), s)
  | .sliceFrom start =>
    match reader.sliceFrom s start with
    | .ok text => (.text text, s)
    | .error fault => (.fault fault, s)

/-- The answers to operations one after the other, and the state after the last. -/
def run (s : σ) : List Operation → List Answer × σ
  | [] => ([], s)
  | op :: ops =>
    let step := reader.perform s op
    (step.1 :: (run step.2 ops).1, (run step.2 ops).2)

end Reader

/-- A cursor as it is. -/
def Cursor.reader : Reader Cursor where
  advance := advance
  retreat := retreat
  matchChar := matchChar
  peek := peek
  current := current
  currentStart := currentStart
  position := position
  atEnd := atEnd
  remaining := remaining
  source := source
  sliceFrom := sliceFrom

/-! ## The zipper -/

/-- What happened last to a text that is read. -/
inductive Zipper.Event where
  | nothing
  | read (c : Char)
  | pushedBack (c : Char)
  | ended
deriving DecidableEq, Repr

namespace Zipper.Event

/-- The event can be the last one where `before` is read, the last character first, and `after` is
not. -/
def Fits (before after : List Char) : Event → Prop
  | .nothing => before = []
  | .read c => before.head? = some c
  | .pushedBack c => after.head? = some c
  | .ended => after = []

/-- The character that an event is about. -/
def char? : Event → Option Char
  | .read c | .pushedBack c => some c
  | .nothing | .ended => none

def isRead : Event → Bool
  | .read _ => true
  | _ => false

theorem char?_eq_some_iff {event : Event} {c : Char} :
    event.char? = some c ↔ event = .read c ∨ event = .pushedBack c := by
  cases event <;> simp [char?]

end Zipper.Event

/-- A text cut where the next character is read. -/
structure Zipper where
  /-- The characters that are read, the last one first. -/
  before : List Char
  /-- The characters that are not read. -/
  after : List Char
  last : Zipper.Event
  fits : last.Fits before after

/-- The text behind its first `n` bytes, if a character starts or the text ends there. -/
def dropWidth : Nat → List Char → Option (List Char)
  | 0, cs => some cs
  | _ + 1, [] => none
  | n + 1, c :: cs => if c.utf8Size ≤ n + 1 then dropWidth (n + 1 - c.utf8Size) cs else none

theorem dropWidth_width_append (pre cs : List Char) :
    dropWidth (width pre) (pre ++ cs) = some cs := by
  induction pre with
  | nil => simp [dropWidth]
  | cons c pre ih =>
    obtain ⟨n, hn⟩ : ∃ n, width (c :: pre) = n + 1 :=
      Nat.exists_eq_add_one.mpr (Nat.lt_of_lt_of_le c.utf8Size_pos (Nat.le_add_right _ _))
    have hle : c.utf8Size ≤ n + 1 := by rw [← hn, width_cons]; exact Nat.le_add_right _ _
    have hsub : n + 1 - c.utf8Size = width pre := by
      rw [← hn, width_cons, Nat.add_sub_cancel_left]
    rw [hn, List.cons_append, dropWidth, if_pos hle, hsub, ih]

theorem dropWidth_eq_some_iff {n : Nat} {cs rest : List Char} :
    dropWidth n cs = some rest ↔ ∃ pre, cs = pre ++ rest ∧ width pre = n := by
  constructor
  · intro h
    fun_induction dropWidth n cs with
    | case1 cs => exact ⟨[], by simpa using h, rfl⟩
    | case2 n => cases h
    | case3 n c cs hle ih =>
      obtain ⟨pre, rfl, hpre⟩ := ih h
      exact ⟨c :: pre, rfl, by rw [width_cons, hpre]; omega⟩
    | case4 n c cs hlt => cases h
  · rintro ⟨pre, rfl, rfl⟩
    exact dropWidth_width_append pre rest

namespace Zipper

def ofSource (source : String) : Zipper :=
  ⟨[], source.toList, .nothing, rfl⟩

/-- The bytes of the characters that are read. -/
def position (z : Zipper) : Nat :=
  width z.before

def advance : Zipper → Zipper
  | ⟨before, [], _, _⟩ => ⟨before, [], .ended, rfl⟩
  | ⟨before, c :: after, _, _⟩ => ⟨c :: before, after, .read c, rfl⟩

/-- Only a character that was read by the last event goes back. -/
def retreat (z : Zipper) : Except Cursor.Fault Zipper :=
  match z.last with
  | .read c => .ok ⟨z.before.tail, c :: z.after, .pushedBack c, rfl⟩
  | .nothing | .pushedBack _ | .ended => .error (.retreat z.position)

def matchChar (z : Zipper) (c : Char) : Bool × Zipper :=
  if z.after.head? = some c then (true, z.advance) else (false, z)

def currentStart (z : Zipper) : Nat :=
  match z.last with
  | .read _ => width z.before.tail
  | .nothing | .pushedBack _ | .ended => z.position

def sliceFrom (z : Zipper) (start : Nat) : Except Cursor.Fault String :=
  match dropWidth start z.before.reverse with
  | some text => .ok (String.ofList text)
  | none => .error (.slice start z.position)

theorem before_eq_cons {z : Zipper} {c : Char} (h : z.last = .read c) :
    z.before = c :: z.before.tail := by
  have hfits := z.fits
  rw [h] at hfits
  exact List.eq_cons_of_mem_head? hfits

/-- A zipper as something that reads a source. -/
def reader : Reader Zipper where
  advance := advance
  retreat := retreat
  matchChar := matchChar
  peek := fun z ↦ z.after.head?
  current := fun z ↦ z.last.char?
  currentStart := currentStart
  position := position
  atEnd := fun z ↦ z.after.isEmpty
  remaining := fun z ↦ String.ofList z.after
  source := fun z ↦ String.ofList (z.before.reverse ++ z.after)
  sliceFrom := sliceFrom

end Zipper

/-! ## What a cursor represents -/

theorem width_reverse (cs : List Char) : width cs.reverse = width cs := by
  induction cs with
  | nil => rfl
  | cons c cs ih => simp [ih, Nat.add_comm]

/-- A boundary inside the first part of a text cuts that part in two. -/
theorem exists_append_of_isValid {pre suf : List Char} {start : Nat}
    (hvalid : String.Pos.Raw.isValid (String.ofList (pre ++ suf)) ⟨start⟩ = true)
    (hle : start ≤ width pre) : ∃ p mid, pre = p ++ mid ∧ width p = start := by
  rw [String.Pos.Raw.isValid_eq_true_iff, String.Pos.Raw.isValid_iff_exists_append] at hvalid
  obtain ⟨s₁, s₂, hs, hstart⟩ := hvalid
  have hlist : pre ++ suf = s₁.toList ++ s₂.toList := by
    rw [← String.toList_append, ← hs, String.toList_ofList]
  have hwidth : width s₁.toList = start := by
    rw [← utf8ByteSize_ofList, String.ofList_toList]
    exact congrArg String.Pos.Raw.byteIdx hstart.symm
  rcases List.append_eq_append_iff.mp hlist with ⟨more, hmore, -⟩ | ⟨mid, hmid, -⟩
  · -- The boundary is no further than the end of the first part, so nothing lies between.
    obtain rfl : more = [] := by
      have hlen := length_le_width more
      rw [← hwidth, hmore, width_append] at hle
      exact List.eq_nil_of_length_eq_zero (by omega)
    exact ⟨pre, [], by simp, by simpa [hmore] using hwidth⟩
  · exact ⟨s₁.toList, mid, hmid, hwidth⟩

namespace Cursor

/-- The cursor stands where the zipper is cut, and remembers its last event. -/
structure Represents (cur : Cursor) (z : Zipper) : Prop where
  place : cur.At z.before.reverse z.after
  current_eq : cur.current = z.last.char?
  canRetreat_eq : cur.canRetreat = z.last.isRead

theorem represents_ofSource (source : String) :
    (ofSource source).Represents (.ofSource source) where
  place := at_ofSource source
  current_eq := rfl
  canRetreat_eq := rfl

namespace Represents

variable {cur : Cursor} {z : Zipper}

theorem position_eq (h : cur.Represents z) : cur.position = z.position := by
  rw [h.place.position_eq, width_reverse, Zipper.position]

theorem advance (h : cur.Represents z) : cur.advance.Represents z.advance := by
  obtain ⟨before, after, last, fits⟩ := z
  cases after with
  | nil =>
    refine ⟨h.place.advance_nil, ?_, ?_⟩
    · rw [current_advance, h.place.peek_eq]
      rfl
    · rw [Cursor.advance, h.place.peek_eq]
      rfl
  | cons c after =>
    refine ⟨?_, ?_, ?_⟩
    · simpa [Zipper.advance] using h.place.advance
    · rw [h.place.advance_eq]
      rfl
    · rw [h.place.advance_eq]
      rfl

/-- A character that was just read stands before the position. -/
theorem position_sub_of_read {c : Char} (h : cur.Represents z) (hlast : z.last = .read c) :
    cur.position - c.utf8Size = width z.before.tail := by
  rw [h.position_eq, Zipper.position, Zipper.before_eq_cons hlast, width_cons,
    Nat.add_sub_cancel_left, List.tail_cons]

/-- A cursor gives back what it has just read. -/
theorem retreat_of_read {c : Char} (h : cur.Represents z) (hlast : z.last = .read c) :
    ∃ back, cur.retreat = .ok back ∧
      back.Represents ⟨z.before.tail, c :: z.after, .pushedBack c, rfl⟩ := by
  refine ⟨{ cur with position := cur.position - c.utf8Size, canRetreat := false }, ?_, ?_⟩
  · rw [Cursor.retreat, h.current_eq, h.canRetreat_eq, hlast]
    rfl
  · have hcurrent := h.current_eq
    rw [hlast] at hcurrent
    refine ⟨⟨?_, ?_⟩, hcurrent, rfl⟩
    · rw [h.place.source_eq, Zipper.before_eq_cons hlast]
      simp
    · rw [width_reverse]
      exact h.position_sub_of_read hlast

/-- A cursor whose last event is no reading has nothing to give back. -/
theorem retreat_of_isRead_eq_false (h : cur.Represents z) (hlast : z.last.isRead = false) :
    cur.retreat = .error (.retreat z.position) := by
  rw [Cursor.retreat, h.canRetreat_eq, hlast, ← h.position_eq]
  cases cur.current <;> rfl

theorem currentStart_eq (h : cur.Represents z) : cur.currentStart = z.currentStart := by
  rw [currentStart, h.current_eq, h.canRetreat_eq, Zipper.currentStart]
  cases hlast : z.last with
  | read c => exact h.position_sub_of_read hlast
  | nothing | pushedBack c | ended => exact h.position_eq

theorem matchChar (h : cur.Represents z) (c : Char) :
    (cur.matchChar c).1 = (z.matchChar c).1 ∧
      (cur.matchChar c).2.Represents (z.matchChar c).2 := by
  rw [Cursor.matchChar, Zipper.matchChar, h.place.peek_eq]
  by_cases hc : z.after.head? = some c
  · rw [if_pos hc, if_pos hc]
    exact ⟨rfl, h.advance⟩
  · rw [if_neg hc, if_neg hc]
    exact ⟨rfl, h⟩

theorem atEnd_eq (h : cur.Represents z) : cur.atEnd = z.after.isEmpty := by
  rw [atEnd, h.place.size_eq, h.place.position_eq]
  cases z.after with
  | nil => simp
  | cons c after =>
    have hc := c.utf8Size_pos
    rw [List.isEmpty_cons, decide_eq_false_iff_not, width_cons]
    omega

/-- A slice is refused unless it starts at a character that is read. -/
theorem sliceFrom_eq (h : cur.Represents z) (start : Nat) :
    cur.sliceFrom start = z.sliceFrom start := by
  unfold Zipper.sliceFrom
  cases hdrop : dropWidth start z.before.reverse with
  | some mid =>
    obtain ⟨p, hp, rfl⟩ := dropWidth_eq_some_iff.mp hdrop
    have hplace := h.place
    rw [hp] at hplace
    exact hplace.sliceFrom_eq
  | none =>
    rw [Cursor.sliceFrom, if_neg, h.position_eq]
    rintro ⟨hle, hstart, -⟩
    rw [h.place.source_eq] at hstart
    rw [h.place.position_eq] at hle
    obtain ⟨p, mid, hp, hwidth⟩ := exists_append_of_isValid hstart hle
    rw [hp, ← hwidth, dropWidth_width_append] at hdrop
    cases hdrop

/-! ## One operation and many -/

/-- Any operation is answered alike, and leaves a cursor that represents what it leaves. -/
theorem perform (h : cur.Represents z) (op : Reader.Operation) :
    (reader.perform cur op).1 = (Zipper.reader.perform z op).1 ∧
      (reader.perform cur op).2.Represents (Zipper.reader.perform z op).2 := by
  cases op with
  | advance => exact ⟨congrArg Reader.Answer.char h.advance.current_eq, h.advance⟩
  | retreat =>
    simp only [Reader.perform, reader, Zipper.reader, Zipper.retreat]
    cases hlast : z.last with
    | read c =>
      obtain ⟨back, hback, hrep⟩ := h.retreat_of_read hlast
      rw [hback]
      exact ⟨rfl, hrep⟩
    | nothing | pushedBack c | ended =>
      rw [h.retreat_of_isRead_eq_false (by rw [hlast]; rfl)]
      exact ⟨rfl, h⟩
  | matchChar c => exact ⟨congrArg Reader.Answer.flag (h.matchChar c).1, (h.matchChar c).2⟩
  | peek => exact ⟨congrArg Reader.Answer.char h.place.peek_eq, h⟩
  | current => exact ⟨congrArg Reader.Answer.char h.current_eq, h⟩
  | currentStart => exact ⟨congrArg Reader.Answer.offset h.currentStart_eq, h⟩
  | position => exact ⟨congrArg Reader.Answer.offset h.position_eq, h⟩
  | atEnd => exact ⟨congrArg Reader.Answer.flag h.atEnd_eq, h⟩
  | remaining => exact ⟨congrArg Reader.Answer.text h.place.remaining_eq, h⟩
  | source => exact ⟨congrArg Reader.Answer.text h.place.source_eq, h⟩
  | sliceFrom start =>
    simp only [Reader.perform, reader, Zipper.reader, h.sliceFrom_eq]
    cases z.sliceFrom start with
    | ok text => exact ⟨rfl, h⟩
    | error fault => exact ⟨rfl, h⟩

theorem run (h : cur.Represents z) (ops : List Reader.Operation) :
    (reader.run cur ops).1 = (Zipper.reader.run z ops).1 ∧
      (reader.run cur ops).2.Represents (Zipper.reader.run z ops).2 := by
  induction ops generalizing cur z with
  | nil => exact ⟨rfl, h⟩
  | cons op ops ih =>
    obtain ⟨hanswer, hnext⟩ := h.perform op
    obtain ⟨hanswers, hlast⟩ := ih hnext
    exact ⟨congrArg₂ List.cons hanswer hanswers, hlast⟩

end Represents

theorem source_perform (cur : Cursor) (op : Reader.Operation) :
    (reader.perform cur op).2.source = cur.source := by
  cases op with
  | advance => exact source_advance cur
  | retreat =>
    simp only [Reader.perform, reader, retreat]
    cases cur.current <;> cases cur.canRetreat <;> rfl
  | matchChar c =>
    simp only [Reader.perform, reader, matchChar]
    split
    · exact source_advance cur
    · rfl
  | sliceFrom start =>
    simp only [Reader.perform, reader]
    cases cur.sliceFrom start <;> rfl
  | peek | current | currentStart | position | atEnd | remaining | source => rfl

theorem source_run (cur : Cursor) (ops : List Reader.Operation) :
    (reader.run cur ops).2.source = cur.source := by
  induction ops generalizing cur with
  | nil => rfl
  | cons op ops ih => exact (ih _).trans (source_perform cur op)

/-! ## What a cursor shows -/

/-- All that can be seen of a cursor, in terms of the characters on its two sides and of what
happened last. -/
structure Shows (cur : Cursor) (z : Zipper) : Prop where
  source_eq : cur.source = String.ofList (z.before.reverse ++ z.after)
  position_eq : cur.position = width z.before.reverse
  position_valid : String.Pos.Raw.isValid cur.source ⟨cur.position⟩ = true
  position_le : cur.position ≤ cur.source.utf8ByteSize
  peek_eq : cur.peek = z.after.head?
  current_advance : cur.advance.current = z.after.head?
  remaining_eq : cur.remaining = String.ofList z.after
  atEnd_iff : cur.atEnd = true ↔ z.after = []
  current_iff : ∀ c, cur.current = some c ↔ z.last = .read c ∨ z.last = .pushedBack c
  /-- The current character stands where it is said to start. -/
  textFrom_currentStart : ∀ c, cur.current = some c →
    ∃ rest, textFrom cur.source cur.currentStart = String.ofList (c :: rest)
  currentStart_of_none : cur.current = none → cur.currentStart = cur.position
  /-- A character that is asked for and comes next is read, and no other. -/
  matchChar_cons : ∀ c after, z.after = c :: after → ∃ next, cur.matchChar c = (true, next) ∧
    next.position = cur.position + c.utf8Size ∧ next.remaining = String.ofList after
  matchChar_of_ne : ∀ c, z.after.head? ≠ some c → cur.matchChar c = (false, cur)
  /-- A character that was just read comes next again. -/
  retreat_of_read : ∀ c, z.last = .read c → ∃ back, cur.retreat = .ok back ∧
    back.position + c.utf8Size = cur.position ∧ back.remaining = String.ofList (c :: z.after)
  retreat_error_iff : (∃ fault, cur.retreat = .error fault) ↔ ∀ c, z.last ≠ .read c
  /-- A slice is given just from where a character that is read starts, or from the position. -/
  sliceFrom_iff : ∀ start text, cur.sliceFrom start = .ok text ↔
    ∃ pre mid, z.before.reverse = pre ++ mid ∧ width pre = start ∧ text = String.ofList mid

namespace Represents

variable {cur : Cursor} {z : Zipper}

theorem textFrom_currentStart {c : Char} (h : cur.Represents z) (hc : cur.current = some c) :
    ∃ rest, textFrom cur.source cur.currentStart = String.ofList (c :: rest) := by
  rw [h.current_eq, Zipper.Event.char?_eq_some_iff] at hc
  rw [h.currentStart_eq, h.place.source_eq, Zipper.currentStart]
  rcases hc with hlast | hlast
  · refine ⟨z.after, ?_⟩
    have htext := textFrom_width z.before.tail.reverse (c :: z.after)
    rw [width_reverse] at htext
    rw [hlast, ← htext, Zipper.before_eq_cons hlast]
    simp
  · have hfits := z.fits
    rw [hlast] at hfits
    refine ⟨z.after.tail, ?_⟩
    have htext := textFrom_width z.before.reverse z.after
    rw [width_reverse] at htext
    rw [hlast, ← List.eq_cons_of_mem_head? hfits]
    exact htext

theorem matchChar_cons {c : Char} {after : List Char} (h : cur.Represents z)
    (hafter : z.after = c :: after) : ∃ next, cur.matchChar c = (true, next) ∧
      next.position = cur.position + c.utf8Size ∧ next.remaining = String.ofList after := by
  have hplace := h.place
  rw [hafter] at hplace
  refine ⟨cur.advance, hplace.matchChar_cons, by rw [hplace.advance_eq], ?_⟩
  rw [h.advance.place.remaining_eq]
  obtain ⟨before, after', last, fits⟩ := z
  obtain rfl : after' = c :: after := hafter
  rfl

theorem retreat_error_iff (h : cur.Represents z) :
    (∃ fault, cur.retreat = .error fault) ↔ ∀ c, z.last ≠ .read c := by
  constructor
  · rintro ⟨fault, hfault⟩ c hlast
    obtain ⟨back, hback, -⟩ := h.retreat_of_read hlast
    rw [hback] at hfault
    cases hfault
  · intro hlast
    refine ⟨_, h.retreat_of_isRead_eq_false ?_⟩
    cases hz : z.last with
    | read c => exact absurd hz (hlast c)
    | nothing | pushedBack c | ended => rfl

theorem sliceFrom_iff (h : cur.Represents z) (start : Nat) (text : String) :
    cur.sliceFrom start = .ok text ↔
      ∃ pre mid, z.before.reverse = pre ++ mid ∧ width pre = start ∧ text = String.ofList mid := by
  rw [h.sliceFrom_eq, Zipper.sliceFrom]
  constructor
  · intro hslice
    cases hdrop : dropWidth start z.before.reverse with
    | none =>
      rw [hdrop] at hslice
      cases hslice
    | some mid =>
      rw [hdrop] at hslice
      obtain ⟨pre, hpre, hwidth⟩ := dropWidth_eq_some_iff.mp hdrop
      exact ⟨pre, mid, hpre, hwidth, (Except.ok.inj hslice).symm⟩
  · rintro ⟨pre, mid, hpre, rfl, rfl⟩
    rw [hpre, dropWidth_width_append]

theorem shows (h : cur.Represents z) : cur.Shows z where
  source_eq := h.place.source_eq
  position_eq := h.place.position_eq
  position_valid := h.place.isValid_position
  position_le := by
    rw [h.place.size_eq, h.place.position_eq]
    exact Nat.le_add_right _ _
  peek_eq := h.place.peek_eq
  current_advance := by rw [Cursor.current_advance, h.place.peek_eq]
  remaining_eq := h.place.remaining_eq
  atEnd_iff := by rw [h.atEnd_eq, List.isEmpty_iff]
  current_iff := by
    intro c
    rw [h.current_eq, Zipper.Event.char?_eq_some_iff]
  textFrom_currentStart := fun _ hc ↦ h.textFrom_currentStart hc
  currentStart_of_none := by
    intro hc
    rw [currentStart, hc]
  matchChar_cons := fun _ _ hafter ↦ h.matchChar_cons hafter
  matchChar_of_ne := fun _ hc ↦ h.place.matchChar_of_ne hc
  retreat_of_read := by
    intro c hlast
    obtain ⟨back, hback, hrep⟩ := h.retreat_of_read hlast
    refine ⟨back, hback, ?_, hrep.place.remaining_eq⟩
    rw [hrep.position_eq, h.position_eq, Zipper.position, Zipper.position,
      Zipper.before_eq_cons hlast, width_cons, Nat.add_comm]
    rfl
  retreat_error_iff := h.retreat_error_iff
  sliceFrom_iff := h.sliceFrom_iff

end Represents

end Cursor

/-- Whatever is asked of a cursor, it answers as a text that is read character by character, and
shows what that text shows. -/
theorem cursor_refines_zipper (s : String) (ops : List Reader.Operation) :
    (Cursor.reader.run (.ofSource s) ops).1 = (Zipper.reader.run (.ofSource s) ops).1 ∧
    (Cursor.reader.run (.ofSource s) ops).2.source = s ∧
    (Cursor.reader.run (.ofSource s) ops).2.Shows (Zipper.reader.run (.ofSource s) ops).2 := by
  obtain ⟨hanswers, hlast⟩ := (Cursor.represents_ofSource s).run ops
  exact ⟨hanswers, Cursor.source_run _ ops, hlast.shows⟩

end RubyLex

import RubyLex.Proofs.Calls
import RubyLex.Proofs.Zipper

/-!
# What a lexer asks of its cursor

A cursor refuses to push back or to cut where there is nothing to give, reads only where a character
starts, and takes no offset below zero.  To say that a lexer never asks for more, its scanners are
run with a record of what they ask.  The record changes nothing: a recorded scanner ends as the
scanner does (`result_recordRead`).  Every request in the record is safe, and there are not many
more of them than bytes to read.
-/

namespace RubyLex

/-- An operation that is asked of a cursor. -/
structure Cursor.Request where
  cursor : Cursor
  operation : Reader.Operation

/-- The cursor stands at a character boundary and has what the operation needs: a character to push
back, enough bytes before the position to step over the current character, or a boundary no further
than the position to cut at. -/
def Cursor.Request.Safe (r : Cursor.Request) : Prop :=
  String.Pos.Raw.isValid r.cursor.source ⟨r.cursor.position⟩ = true ∧
    match r.operation with
    | .retreat => ∃ c, r.cursor.current = some c ∧ r.cursor.canRetreat = true ∧
        c.utf8Size ≤ r.cursor.position
    | .currentStart => ∀ c, r.cursor.current = some c → r.cursor.canRetreat = true →
        c.utf8Size ≤ r.cursor.position
    | .sliceFrom start => start ≤ r.cursor.position ∧
        String.Pos.Raw.isValid r.cursor.source ⟨start⟩ = true
    | _ => True

/-- A computation with the record of what it asks. -/
structure Recorded (α : Type) where
  requests : List Cursor.Request
  result : Except Cursor.Fault α

namespace Recorded

variable {α β : Type}

/-- What is asked later comes later in the record, and nothing is asked after a fault. -/
instance : Monad Recorded where
  pure a := ⟨[], .ok a⟩
  bind x k :=
    match x.result with
    | .ok a => ⟨x.requests ++ (k a).requests, (k a).result⟩
    | .error fault => ⟨x.requests, .error fault⟩

@[simp] theorem result_pure (a : α) : (pure a : Recorded α).result = .ok a := rfl

@[simp] theorem result_bind (x : Recorded α) (k : α → Recorded β) :
    (x >>= k).result = x.result.bind fun a ↦ (k a).result := by
  obtain ⟨requests, result⟩ := x
  cases result <;> rfl

theorem requests_bind {x : Recorded α} {a : α} (h : x.result = .ok a) (k : α → Recorded β) :
    (x >>= k).requests = x.requests ++ (k a).requests := by
  obtain ⟨requests, result⟩ := x
  obtain rfl : result = .ok a := h
  rfl

def advance (cur : Cursor) : Recorded Cursor :=
  ⟨[⟨cur, .advance⟩], .ok cur.advance⟩

def retreat (cur : Cursor) : Recorded Cursor :=
  ⟨[⟨cur, .retreat⟩], cur.retreat⟩

def currentStart (cur : Cursor) : Recorded Nat :=
  ⟨[⟨cur, .currentStart⟩], .ok cur.currentStart⟩

def matchChar (cur : Cursor) (c : Char) : Recorded (Bool × Cursor) :=
  ⟨[⟨cur, .matchChar c⟩], .ok (cur.matchChar c)⟩

def sliceFrom (cur : Cursor) (start : Nat) : Recorded String :=
  ⟨[⟨cur, .sliceFrom start⟩], cur.sliceFrom start⟩

end Recorded

namespace Lexer

open Recorded

/-! ## The scanners with their record -/

def recordWord (cur : Cursor) : Recorded Cursor := do
  let after ← advance cur
  match _h : cur.peek with
  | none => return after
  | some c => if isWordPart c then recordWord cur.advance else retreat after
termination_by cur.unread
decreasing_by exact Cursor.unread_advance_lt _h

def recordNumber (seenPoint : Bool) (cur : Cursor) : Recorded Cursor := do
  let after ← advance cur
  match _h : cur.peek with
  | none => return after
  | some c =>
    if isDigit c then recordNumber seenPoint cur.advance
    else if isPoint c && !seenPoint then recordNumber true cur.advance
    else retreat after
termination_by cur.unread
decreasing_by all_goals exact Cursor.unread_advance_lt _h

def recordSymbol (c : Char) (cur : Cursor) : Recorded (Kind × Cursor) :=
  match Kind.punctuation? c with
  | some kind => return (kind, cur)
  | none =>
    match Operator.ofChar? c with
    | none => return (.char, cur)
    | some op => do
      match ← matchChar cur op.extension with
      | (true, after) => return (op.extended, after)
      | (false, after) => return (op.single, after)

def recordLexeme (c : Char) (cur : Cursor) : Recorded (Kind × Cursor) :=
  if isLetter c then do return (.word, ← recordWord cur)
  else if isDigit c then do return (.number, ← recordNumber false cur)
  else recordSymbol c cur

def recordRead (cur : Cursor) : Recorded (Option Lexeme × Cursor) := do
  let after ← advance cur
  match _h : cur.peek with
  | none => return (none, after)
  | some c =>
    if isBlank c then recordRead cur.advance
    else do
      let start ← currentStart after
      let (kind, stop) ← recordLexeme c after
      let text ← sliceFrom stop start
      return (some ⟨⟨kind, text⟩, start⟩, stop)
termination_by cur.unread
decreasing_by exact Cursor.unread_advance_lt _h

variable {cur : Cursor}

theorem recordWord_nil (h : cur.peek = none) : recordWord cur = advance cur >>= pure := by
  rw [recordWord]
  split <;> simp_all

theorem recordWord_part {c : Char} (h : cur.peek = some c) (hc : isWordPart c = true) :
    recordWord cur = advance cur >>= fun _ ↦ recordWord cur.advance := by
  rw [recordWord]
  split <;> simp_all

theorem recordWord_stop {c : Char} (h : cur.peek = some c) (hc : isWordPart c = false) :
    recordWord cur = advance cur >>= retreat := by
  rw [recordWord]
  split <;> simp_all

theorem recordNumber_nil (seenPoint : Bool) (h : cur.peek = none) :
    recordNumber seenPoint cur = advance cur >>= pure := by
  rw [recordNumber]
  split <;> simp_all

theorem recordNumber_digit (seenPoint : Bool) {c : Char} (h : cur.peek = some c)
    (hc : isDigit c = true) :
    recordNumber seenPoint cur = advance cur >>= fun _ ↦ recordNumber seenPoint cur.advance := by
  rw [recordNumber]
  split <;> simp_all

theorem recordNumber_point {seenPoint : Bool} {c : Char} (h : cur.peek = some c)
    (hc : isDigit c = false) (hp : (isPoint c && !seenPoint) = true) :
    recordNumber seenPoint cur = advance cur >>= fun _ ↦ recordNumber true cur.advance := by
  rw [recordNumber]
  split <;> simp_all

theorem recordNumber_stop {seenPoint : Bool} {c : Char} (h : cur.peek = some c)
    (hc : isDigit c = false) (hp : (isPoint c && !seenPoint) = false) :
    recordNumber seenPoint cur = advance cur >>= retreat := by
  rw [recordNumber]
  split
  · simp_all
  · rename_i d hd
    obtain rfl : c = d := Option.some.inj (h.symm.trans hd)
    simp only [hc, hp, Bool.false_eq_true, if_false]

theorem recordRead_nil (h : cur.peek = none) :
    recordRead cur = advance cur >>= fun after ↦ pure (none, after) := by
  rw [recordRead]
  split <;> simp_all

theorem recordRead_cons_blank {c : Char} (h : cur.peek = some c) (hc : isBlank c = true) :
    recordRead cur = advance cur >>= fun _ ↦ recordRead cur.advance := by
  rw [recordRead]
  split <;> simp_all

theorem recordRead_cons {c : Char} (h : cur.peek = some c) (hc : isBlank c = false) :
    recordRead cur = do
      let after ← advance cur
      let start ← currentStart after
      let (kind, stop) ← recordLexeme c after
      let text ← sliceFrom stop start
      return (some ⟨⟨kind, text⟩, start⟩, stop) := by
  rw [recordRead]
  split <;> simp_all

/-! ## The record changes nothing -/

theorem result_recordWord (cur : Cursor) : (recordWord cur).result = readWord cur := by
  fun_induction readWord cur with
  | case1 cur h =>
    rw [recordWord_nil h]
    rfl
  | case2 cur c h hc ih =>
    rw [recordWord_part h hc]
    exact ih
  | case3 cur c h hc =>
    rw [recordWord_stop h (by simpa using hc)]
    rfl

theorem result_recordNumber (seenPoint : Bool) (cur : Cursor) :
    (recordNumber seenPoint cur).result = readNumber seenPoint cur := by
  fun_induction readNumber seenPoint cur with
  | case1 seenPoint cur h =>
    rw [recordNumber_nil seenPoint h]
    rfl
  | case2 seenPoint cur c h hd ih =>
    rw [recordNumber_digit seenPoint h hd]
    exact ih
  | case3 seenPoint cur c h hd hp ih =>
    rw [recordNumber_point h (by simpa using hd) hp]
    exact ih
  | case4 seenPoint cur c h hd hp =>
    rw [recordNumber_stop h (by simpa using hd) (by simpa using hp)]
    rfl

theorem result_recordSymbol (c : Char) (cur : Cursor) :
    (recordSymbol c cur).result = .ok (readSymbol c cur) := by
  unfold recordSymbol readSymbol
  cases Kind.punctuation? c with
  | some kind => rfl
  | none =>
    cases Operator.ofChar? c with
    | none => rfl
    | some op =>
      simp only [result_bind, matchChar, Except.bind]
      cases cur.matchChar op.extension with
      | mk hit after => cases hit <;> rfl

theorem result_recordLexeme (c : Char) (cur : Cursor) :
    (recordLexeme c cur).result = readLexeme c cur := by
  unfold recordLexeme readLexeme
  split
  · rw [result_bind, result_recordWord]
    rfl
  · split
    · rw [result_bind, result_recordNumber]
      rfl
    · exact result_recordSymbol c cur

/-- A lexer that is recorded hands out what it hands out otherwise. -/
theorem result_recordRead (cur : Cursor) : (recordRead cur).result = read cur := by
  fun_induction read cur with
  | case1 cur h => rw [recordRead_nil h]; rfl
  | case2 cur c h hc ih =>
    rw [recordRead_cons_blank h hc]
    exact ih
  | case3 cur c h hc start =>
    rw [recordRead_cons h (by simpa using hc)]
    simp only [result_bind, result_recordLexeme, advance, currentStart, sliceFrom]
    rfl

end Lexer

/-! ## Every request is safe -/

namespace Recorded

/-- Only safe requests are made, and at most `n` of them. -/
structure Sound {α : Type} (x : Recorded α) (n : Nat) : Prop where
  safe : ∀ r ∈ x.requests, r.Safe
  length_le : x.requests.length ≤ n

variable {α β : Type} {l m n : Nat} {cur : Cursor} {pre suf : List Char} {c : Char}

theorem sound_pure (a : α) : (pure a : Recorded α).Sound 0 where
  safe := by
    intro r hr
    cases hr
  length_le := Nat.le_refl 0

theorem Sound.bind {x : Recorded α} {k : α → Recorded β} {a : α} (hx : x.Sound m)
    (ha : x.result = .ok a) (hk : (k a).Sound n) (hle : m + n ≤ l) : (x >>= k).Sound l where
  safe := by
    intro r hr
    rw [requests_bind ha] at hr
    rcases List.mem_append.mp hr with hr | hr
    · exact hx.safe r hr
    · exact hk.safe r hr
  length_le := by
    rw [requests_bind ha, List.length_append]
    exact Nat.le_trans (Nat.add_le_add hx.length_le hk.length_le) hle

theorem Sound.mono {x : Recorded α} (hx : x.Sound m) (hle : m ≤ n) : x.Sound n :=
  ⟨hx.safe, Nat.le_trans hx.length_le hle⟩

theorem sound_request {x : Recorded α} {r : Cursor.Request} (hx : x.requests = [r]) (hr : r.Safe) :
    x.Sound 1 where
  safe := by
    intro r' hr'
    rw [hx, List.mem_singleton] at hr'
    rwa [hr']
  length_le := by rw [hx, List.length_singleton]

theorem sound_advance (h : cur.At pre suf) : (advance cur).Sound 1 :=
  sound_request rfl ⟨h.isValid_position, trivial⟩

theorem sound_matchChar (h : cur.At pre suf) (c : Char) : (matchChar cur c).Sound 1 :=
  sound_request rfl ⟨h.isValid_position, trivial⟩

/-- A character that was just read has its bytes before the position. -/
theorem utf8Size_le_position_advance (h : cur.At pre (c :: suf)) :
    c.utf8Size ≤ cur.advance.position := by
  rw [h.advance_eq]
  exact Nat.le_add_left _ _

theorem sound_retreat (h : cur.At pre (c :: suf)) : (retreat cur.advance).Sound 1 := by
  refine sound_request rfl ⟨h.advance.isValid_position, c, ?_, ?_, utf8Size_le_position_advance h⟩
  · rw [h.advance_eq]
  · rw [h.advance_eq]

theorem sound_currentStart (h : cur.At pre (c :: suf)) : (currentStart cur.advance).Sound 1 := by
  refine sound_request rfl ⟨h.advance.isValid_position, ?_⟩
  intro d hd _
  have hcurrent : cur.advance.current = some c := by rw [h.advance_eq]
  obtain rfl : c = d := Option.some.inj (hcurrent.symm.trans hd)
  exact utf8Size_le_position_advance h

theorem sound_sliceFrom {mid : List Char} (h : cur.At (pre ++ mid) suf) :
    (sliceFrom cur (width pre)).Sound 1 := by
  refine sound_request rfl ⟨h.isValid_position, ?_, ?_⟩
  · change width pre ≤ cur.position
    rw [h.position_eq, width_append]
    exact Nat.le_add_right _ _
  · change String.Pos.Raw.isValid cur.source ⟨width pre⟩ = true
    rw [h.source_eq, List.append_assoc]
    exact isValid_width pre (mid ++ suf)

end Recorded

namespace Lexer

open Recorded

variable {cur : Cursor} {pre suf : List Char}

theorem sound_recordWord (h : cur.At pre suf) : (recordWord cur).Sound (suf.length + 1) := by
  induction suf generalizing cur pre with
  | nil =>
    rw [recordWord_nil h.peek_eq]
    exact (sound_advance h).bind rfl (sound_pure _) (Nat.le_refl 1)
  | cons c suf ih =>
    cases hc : isWordPart c with
    | true =>
      rw [recordWord_part h.peek_eq hc]
      exact (sound_advance h).bind rfl (ih h.advance) (Nat.le_of_eq (Nat.add_comm _ _))
    | false =>
      rw [recordWord_stop h.peek_eq hc]
      exact (sound_advance h).bind rfl (sound_retreat h) (by simp)

theorem sound_recordNumber (seenPoint : Bool) (h : cur.At pre suf) :
    (recordNumber seenPoint cur).Sound (suf.length + 1) := by
  induction suf generalizing cur pre seenPoint with
  | nil =>
    rw [recordNumber_nil seenPoint h.peek_eq]
    exact (sound_advance h).bind rfl (sound_pure _) (Nat.le_refl 1)
  | cons c suf ih =>
    cases hd : isDigit c with
    | true =>
      rw [recordNumber_digit seenPoint h.peek_eq hd]
      exact (sound_advance h).bind rfl (ih seenPoint h.advance) (Nat.le_of_eq (Nat.add_comm _ _))
    | false =>
      cases hp : isPoint c && !seenPoint with
      | true =>
        rw [recordNumber_point h.peek_eq hd hp]
        exact (sound_advance h).bind rfl (ih true h.advance) (Nat.le_of_eq (Nat.add_comm _ _))
      | false =>
        rw [recordNumber_stop h.peek_eq hd hp]
        exact (sound_advance h).bind rfl (sound_retreat h) (by simp)

theorem sound_recordSymbol (h : cur.At pre suf) (c : Char) : (recordSymbol c cur).Sound 1 := by
  unfold recordSymbol
  cases Kind.punctuation? c with
  | some kind => exact (sound_pure _).mono (Nat.zero_le 1)
  | none =>
    cases Operator.ofChar? c with
    | none => exact (sound_pure _).mono (Nat.zero_le 1)
    | some op =>
      refine (sound_matchChar h op.extension).bind rfl (n := 0) ?_ (Nat.le_refl 1)
      cases cur.matchChar op.extension with
      | mk hit after => cases hit <;> exact sound_pure _

theorem sound_recordLexeme {c : Char} (h : cur.At (pre ++ [c]) suf) :
    (recordLexeme c cur).Sound (suf.length + 1) := by
  unfold recordLexeme
  split
  · obtain ⟨after, hread, -⟩ := readWord_at h
    exact (sound_recordWord h).bind ((result_recordWord cur).trans hread) (sound_pure _)
      (Nat.le_refl _)
  · split
    · obtain ⟨after, hread, -⟩ := readNumber_false_at h
      exact (sound_recordNumber false h).bind ((result_recordNumber false cur).trans hread)
        (sound_pure _) (Nat.le_refl _)
    · exact (sound_recordSymbol h c).mono (Nat.le_add_left 1 _)

/-- One call asks for at most three operations more than there are characters to read: it may look
at one character too many and push it back, and it looks up where its lexeme starts and cuts it
out. -/
theorem sound_recordRead (h : cur.At pre suf) : (recordRead cur).Sound (suf.length + 3) := by
  induction suf generalizing cur pre with
  | nil =>
    rw [recordRead_nil h.peek_eq]
    exact (sound_advance h).bind rfl (sound_pure _) (by simp)
  | cons c suf ih =>
    cases hc : isBlank c with
    | true =>
      rw [recordRead_cons_blank h.peek_eq hc]
      exact (sound_advance h).bind rfl (ih h.advance) (Nat.le_of_eq (Nat.add_comm _ _))
    | false =>
      obtain ⟨stop, hread, hstop⟩ := readLexeme_at h.advance
      have hslice := sound_sliceFrom hstop
      have htext := hstop.sliceFrom_eq
      rw [← h.currentStart_advance] at hslice htext
      rw [recordRead_cons h.peek_eq hc]
      refine (sound_advance h).bind rfl (n := suf.length + 3) ?_ (by simp; omega)
      refine (sound_currentStart h).bind rfl (n := suf.length + 2) ?_ (by omega)
      refine (sound_recordLexeme h.advance).bind ((result_recordLexeme c cur.advance).trans hread)
        (n := 1) ?_ (Nat.le_refl _)
      exact hslice.bind htext (sound_pure _) (Nat.le_refl 1)

/-! ## Progress -/

/-- A call that ends well: it makes few requests and only safe ones, and either reads past the
lexeme that it hands out or has read everything. -/
structure Progresses (lexer : Lexer) (lexeme? : Option Lexeme) (after : Lexer) : Prop where
  next_eq : lexer.next = .ok (lexeme?, after)
  result_eq : (recordRead lexer.cursor).result = .ok (lexeme?, after.cursor)
  safe : ∀ r ∈ (recordRead lexer.cursor).requests, r.Safe
  length_le : (recordRead lexer.cursor).requests.length ≤ lexer.cursor.unread + 3
  position_of_some : ∀ lexeme, lexeme? = some lexeme →
    1 ≤ lexeme.token.value.utf8ByteSize ∧
      lexer.cursor.position + lexeme.token.value.utf8ByteSize ≤ after.cursor.position
  position_of_none : lexeme? = none → after.cursor.position = lexer.source.utf8ByteSize

/-- Wherever its cursor stands, the next call of a lexer ends well. -/
theorem exists_progresses (h : cur.At pre suf) :
    ∃ lexeme? after, Progresses ⟨cur⟩ lexeme? after := by
  have hsound := sound_recordRead h
  have hlength : (recordRead cur).requests.length ≤ cur.unread + 3 := by
    rw [h.unread_eq]
    exact Nat.le_trans hsound.length_le (Nat.add_le_add_right (length_le_width suf) 3)
  rcases blanks_or_lexeme suf with hws | ⟨ws, c, rest, hws, hc, rfl⟩
  · obtain ⟨after, hread, hat⟩ := read_blanks h hws
    refine ⟨none, ⟨after⟩, ?_, (result_recordRead cur).trans hread, hsound.safe, hlength, ?_, ?_⟩
    · rw [next, hread]
      rfl
    · intro lexeme hnone
      cases hnone
    · intro _
      change after.position = cur.source.utf8ByteSize
      rw [hat.position_eq, h.size_eq, width_append]
  · obtain ⟨after, hread, hat⟩ := read_lexeme h hws hc
    refine ⟨_, ⟨after⟩, ?_, (result_recordRead cur).trans hread, hsound.safe, hlength, ?_, ?_⟩
    · rw [next, hread]
      rfl
    · rintro lexeme hlexeme
      obtain rfl := Option.some.inj hlexeme
      change 1 ≤ (Cut.first c rest).token.value.utf8ByteSize ∧
        cur.position + (Cut.first c rest).token.value.utf8ByteSize ≤ after.position
      rw [Cut.utf8ByteSize_token, hat.position_eq, h.position_eq, width_append, width_append]
      have hpos := List.length_pos_iff.mpr (Cut.text_ne_nil c rest)
      have hle := length_le_width (Cut.first c rest).text
      omega
    · intro hnone
      cases hnone

end Lexer

/-- There are no more lexemes than characters. -/
theorem Lexeme.length_list_le (cs : List Char) (n : Nat) : (list cs n).length ≤ cs.length := by
  induction cs using cutInduction generalizing n with
  | blanks ws hws =>
    rw [list_blanks hws]
    exact Nat.zero_le _
  | lexeme ws c rest hws hc ih =>
    rw [list_blanks_append hws, list_cons hc]
    have hle := ih (n + width ws + width (Cut.first c rest).text)
    have hrest := Cut.length_rest_le c rest
    simp only [List.length_cons, List.length_append]
    omega

/-- A lexer never faults.  After any calls the next one makes only safe requests, and few of them;
it reads past the token that it hands out, or everything is read.  So all tokens are handed out
within as many calls as the source has bytes, and the lexer is then exhausted. -/
theorem lexer_never_faults (s : String) :
    (∀ cs : List Lexer.Call, ∃ answers lexer lexeme? after,
      (Lexer.ofSource s).calls cs = .ok (answers, lexer) ∧ lexer.source = s ∧
        lexer.Progresses lexeme? after) ∧
    (∃ spans last, (Lexer.ofSource s).Produces spans last ∧ last.Exhausted ∧
      spans.length ≤ s.utf8ByteSize) ∧
    (Lexer.ofSource s).tokens = .ok (tokenize s) := by
  refine ⟨?_, ?_, Lexer.tokens_ofSource s⟩
  · intro cs
    obtain ⟨lexer, pre, suf, hcalls, hat, hsource, -⟩ := Lexer.calls_ofSource s cs
    obtain ⟨lexeme?, after, hprogress⟩ := Lexer.exists_progresses hat
    exact ⟨_, lexer, lexeme?, after, hcalls, hsource, hprogress⟩
  · obtain ⟨last, hlast, hend⟩ := Lexer.produces_list (Cursor.at_ofSource s)
    refine ⟨_, last, hlast, hend, ?_⟩
    rw [List.length_map, ← String.ofList_toList (s := s), utf8ByteSize_ofList,
      String.toList_ofList]
    exact Nat.le_trans (Lexeme.length_list_le _ _) (length_le_width _)

end RubyLex

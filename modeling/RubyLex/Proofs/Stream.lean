import RubyLex.Lexer
import RubyLex.Proofs.Cutting
import RubyLex.Proofs.Place

/-!
# The streaming lexer reads the cuts

Each scanner reads one character too far and pushes it back.  Wherever the cursor stands, and
whatever it remembers, a scanner refuses nothing and leaves the cursor at the end of the cut of the
unread text; so the lexer hands out the lexemes of the source, with their offsets.
-/

namespace RubyLex

namespace Cut

/-! ## A number, one character at a time -/

theorem kind_number (c : Char) (rest : List Char) : (number c rest).kind = .number := by
  unfold number
  split
  · rfl
  · split <;> rfl

theorem number_cons_digit (c : Char) {d : Char} (hd : isDigit d = true) (rest : List Char) :
    number c (d :: rest) = ⟨.number, c :: (number d rest).text, (number d rest).rest⟩ := by
  unfold number
  simp only [List.dropWhile_cons_of_pos hd, List.takeWhile_cons_of_pos hd]
  split
  · rfl
  · split <;> rfl

theorem number_cons_point (c : Char) {d : Char} (hd : isDigit d = false) (hp : isPoint d = true)
    (rest : List Char) :
    number c (d :: rest) =
      ⟨.number, c :: d :: rest.takeWhile isDigit, rest.dropWhile isDigit⟩ := by
  simp [number, hd, hp]

theorem number_cons_other (c : Char) {d : Char} (hd : isDigit d = false) (hp : isPoint d = false)
    (rest : List Char) : number c (d :: rest) = ⟨.number, [c], d :: rest⟩ := by
  simp [number, hd, hp]

theorem utf8ByteSize_token (cut : Cut) : cut.token.value.utf8ByteSize = width cut.text :=
  utf8ByteSize_ofList cut.text

end Cut

/-- A token with the byte offsets between which its text stands. -/
structure Span where
  token : Token
  start : Nat
  stop : Nat
deriving DecidableEq, Repr

/-- The offsets of a lexeme: its text is as long as its value. -/
def Lexeme.span (l : Lexeme) : Span :=
  ⟨l.token, l.start, l.start + l.token.value.utf8ByteSize⟩

namespace Lexer

variable {cur : Cursor} {pre suf : List Char}

/-! ## The scanners -/

theorem readWord_nil (h : cur.peek = none) : readWord cur = .ok cur.advance := by
  rw [readWord]
  split <;> simp_all

theorem readWord_cons {c : Char} (h : cur.peek = some c) :
    readWord cur = if isWordPart c then readWord cur.advance else cur.advance.retreat := by
  rw [readWord]
  split <;> simp_all

theorem readNumber_nil (seenPoint : Bool) (h : cur.peek = none) :
    readNumber seenPoint cur = .ok cur.advance := by
  rw [readNumber]
  split <;> simp_all

theorem readNumber_cons (seenPoint : Bool) {c : Char} (h : cur.peek = some c) :
    readNumber seenPoint cur =
      if isDigit c then readNumber seenPoint cur.advance
      else if isPoint c && !seenPoint then readNumber true cur.advance
      else cur.advance.retreat := by
  rw [readNumber]
  split <;> simp_all

/-- A scanner that reads one class of characters reads them to the last, and pushes back the
character after them. -/
theorem scan_at {p : Char → Bool} {scan : Cursor → Except Cursor.Fault Cursor}
    (scan_nil : ∀ {cur : Cursor}, cur.peek = none → scan cur = .ok cur.advance)
    (scan_cons : ∀ {cur : Cursor} {c : Char}, cur.peek = some c →
      scan cur = if p c then scan cur.advance else cur.advance.retreat)
    (h : cur.At pre suf) :
    ∃ after, scan cur = .ok after ∧ after.At (pre ++ suf.takeWhile p) (suf.dropWhile p) := by
  induction suf generalizing cur pre with
  | nil => exact ⟨cur.advance, scan_nil h.peek_eq, by simpa using h.advance_nil⟩
  | cons c suf ih =>
    rw [scan_cons h.peek_eq]
    by_cases hc : p c = true
    · rw [if_pos hc, List.takeWhile_cons_of_pos hc, List.dropWhile_cons_of_pos hc]
      simpa using ih h.advance
    · rw [if_neg hc, List.takeWhile_cons_of_neg hc, List.dropWhile_cons_of_neg hc]
      simpa using h.retreat_advance

theorem readWord_at (h : cur.At pre suf) :
    ∃ after, readWord cur = .ok after ∧
      after.At (pre ++ suf.takeWhile isWordPart) (suf.dropWhile isWordPart) :=
  scan_at readWord_nil readWord_cons h

/-- After the point only digits are read. -/
theorem readNumber_true_at (h : cur.At pre suf) :
    ∃ after, readNumber true cur = .ok after ∧
      after.At (pre ++ suf.takeWhile isDigit) (suf.dropWhile isDigit) := by
  refine scan_at (readNumber_nil true) ?_ h
  intro cur c hc
  rw [readNumber_cons true hc, Bool.not_true, Bool.and_false, if_neg Bool.false_ne_true]

/-- A number is read up to the end of its cut, whose first digit is already read. -/
theorem readNumber_false_at {c : Char} (h : cur.At (pre ++ [c]) suf) :
    ∃ after, readNumber false cur = .ok after ∧
      after.At (pre ++ (Cut.number c suf).text) (Cut.number c suf).rest := by
  induction suf generalizing cur pre c with
  | nil => exact ⟨cur.advance, readNumber_nil false h.peek_eq, h.advance_nil⟩
  | cons d suf ih =>
    rw [readNumber_cons false h.peek_eq]
    cases hd : isDigit d with
    | true =>
      rw [if_pos rfl, Cut.number_cons_digit c hd]
      simpa using ih h.advance
    | false =>
      rw [if_neg Bool.false_ne_true]
      cases hp : isPoint d with
      | true =>
        rw [if_pos (by rfl), Cut.number_cons_point c hd hp]
        simpa using readNumber_true_at h.advance
      | false =>
        rw [if_neg (by simp), Cut.number_cons_other c hd hp]
        exact h.retreat_advance

theorem readSymbol_at {c : Char} (h : cur.At (pre ++ [c]) suf) :
    ∃ after, readSymbol c cur = ((Cut.symbol c suf).kind, after) ∧
      after.At (pre ++ (Cut.symbol c suf).text) (Cut.symbol c suf).rest := by
  unfold readSymbol Cut.symbol
  cases Kind.punctuation? c with
  | some kind => exact ⟨cur, rfl, h⟩
  | none =>
    cases Operator.ofChar? c with
    | none => exact ⟨cur, rfl, h⟩
    | some op =>
      cases suf with
      | nil =>
        have hm := h.matchChar_of_ne (c := op.extension) (by simp)
        exact ⟨cur, by simp only [hm]; rfl, h⟩
      | cons d suf =>
        by_cases hd : d = op.extension
        · subst hd
          have hcut : Cut.operator op c (op.extension :: suf) =
              ⟨op.extended, [c, op.extension], suf⟩ := by rw [Cut.operator, if_pos rfl]
          refine ⟨cur.advance, by simp only [h.matchChar_cons, hcut], ?_⟩
          simp only [hcut]
          simpa using h.advance
        · have hcut : Cut.operator op c (d :: suf) = ⟨op.single, [c], d :: suf⟩ := by
            rw [Cut.operator, if_neg hd]
          have hm := h.matchChar_of_ne (c := op.extension) (by simpa using hd)
          exact ⟨cur, by simp only [hm, hcut], by simpa only [hcut] using h⟩

/-- The lexeme of a character that is already read, whichever scanner it takes. -/
theorem readLexeme_at {c : Char} (h : cur.At (pre ++ [c]) suf) :
    ∃ after, readLexeme c cur = .ok ((Cut.first c suf).kind, after) ∧
      after.At (pre ++ (Cut.first c suf).text) (Cut.first c suf).rest := by
  unfold readLexeme Cut.first
  by_cases hl : isLetter c = true
  · obtain ⟨after, hread, hat⟩ := readWord_at h
    rw [if_pos hl, if_pos hl, hread]
    exact ⟨after, rfl, by simpa [Cut.word] using hat⟩
  · rw [if_neg hl, if_neg hl]
    by_cases hd : isDigit c = true
    · obtain ⟨after, hread, hat⟩ := readNumber_false_at h
      rw [if_pos hd, if_pos hd, hread]
      refine ⟨after, ?_, hat⟩
      rw [Cut.kind_number]
      rfl
    · obtain ⟨after, hread, hat⟩ := readSymbol_at h
      rw [if_neg hd, if_neg hd, hread]
      exact ⟨after, rfl, hat⟩

/-! ## The next lexeme -/

theorem read_nil (h : cur.peek = none) : read cur = .ok (none, cur.advance) := by
  rw [read]
  split <;> simp_all

theorem read_cons_blank {c : Char} (h : cur.peek = some c) (hc : isBlank c = true) :
    read cur = read cur.advance := by
  rw [read]
  split <;> simp_all

theorem read_cons {c : Char} (h : cur.peek = some c) (hc : isBlank c = false) :
    read cur = do
      let (kind, after) ← readLexeme c cur.advance
      let text ← after.sliceFrom cur.advance.currentStart
      return (some ⟨⟨kind, text⟩, cur.advance.currentStart⟩, after) := by
  rw [read]
  split <;> simp_all

/-- On blanks the lexer runs to the end and has nothing to give. -/
theorem read_blanks {ws : List Char} (h : cur.At pre ws) (hws : Blanks ws) :
    ∃ after, read cur = .ok (none, after) ∧ after.At (pre ++ ws) [] := by
  induction ws generalizing cur pre with
  | nil => exact ⟨cur.advance, read_nil h.peek_eq, by simpa using h.advance_nil⟩
  | cons w ws ih =>
    rw [read_cons_blank h.peek_eq hws.head]
    simpa using ih h.advance hws.tail

/-- Behind blanks the lexer reads the cut of the first other character. -/
theorem read_lexeme {ws rest : List Char} {c : Char} (h : cur.At pre (ws ++ c :: rest))
    (hws : Blanks ws) (hc : isBlank c = false) :
    ∃ after, read cur = .ok (some ⟨(Cut.first c rest).token, width (pre ++ ws)⟩, after) ∧
      after.At (pre ++ ws ++ (Cut.first c rest).text) (Cut.first c rest).rest := by
  induction ws generalizing cur pre with
  | nil =>
    obtain ⟨after, hread, hat⟩ := readLexeme_at h.advance
    refine ⟨after, ?_, by simpa using hat⟩
    rw [read_cons h.peek_eq hc, hread, h.currentStart_advance]
    simp only [bind, Except.bind, hat.sliceFrom_eq, List.append_nil]
    rfl
  | cons w ws ih =>
    rw [read_cons_blank h.peek_eq hws.head]
    simpa using ih h.advance hws.tail

/-- The lexer that stands where the cursor stands hands out the first lexeme of the unread text. -/
theorem next_lexeme {ws rest : List Char} {c : Char} (h : cur.At pre (ws ++ c :: rest))
    (hws : Blanks ws) (hc : isBlank c = false) :
    ∃ after, next ⟨cur⟩ = .ok (some ⟨(Cut.first c rest).token, width (pre ++ ws)⟩, ⟨after⟩) ∧
      after.At (pre ++ ws ++ (Cut.first c rest).text) (Cut.first c rest).rest := by
  obtain ⟨after, hread, hat⟩ := read_lexeme h hws hc
  exact ⟨after, by rw [next, hread]; rfl, hat⟩

theorem next_blanks {ws : List Char} (h : cur.At pre ws) (hws : Blanks ws) :
    ∃ after, next ⟨cur⟩ = .ok (none, ⟨after⟩) ∧ after.At (pre ++ ws) [] := by
  obtain ⟨after, hread, hat⟩ := read_blanks h hws
  exact ⟨after, by rw [next, hread]; rfl, hat⟩

/-! ## All lexemes -/

/-- What a lexer hands out, call after call: each token with the offset at which the cursor began
it and the position at which the cursor stopped. -/
inductive Produces : Lexer → List Span → Lexer → Prop
  | nil (lexer : Lexer) : Produces lexer [] lexer
  | cons {lexer mid last : Lexer} {lexeme : Lexeme} {spans : List Span} :
      lexer.next = .ok (some lexeme, mid) → Produces mid spans last →
        Produces lexer (⟨lexeme.token, lexeme.start, mid.cursor.position⟩ :: spans) last

/-- The lexer has nothing more to give. -/
def Exhausted (lexer : Lexer) : Prop :=
  ∃ after, lexer.next = .ok (none, after)

/-- A lexer runs through the lexemes of its unread text and is then exhausted. -/
theorem produces_list (h : cur.At pre suf) :
    ∃ last, Produces ⟨cur⟩ ((Lexeme.list suf (width pre)).map Lexeme.span) last ∧
      last.Exhausted := by
  induction suf using cutInduction generalizing cur pre with
  | blanks ws hws =>
    obtain ⟨after, hnext, -⟩ := next_blanks h hws
    rw [Lexeme.list_blanks hws]
    exact ⟨⟨cur⟩, .nil _, ⟨after⟩, hnext⟩
  | lexeme ws c rest hws hc ih =>
    obtain ⟨after, hnext, hat⟩ := next_lexeme h hws hc
    obtain ⟨last, hlast, hend⟩ := ih hat
    refine ⟨last, ?_, hend⟩
    rw [Lexeme.list_blanks_append hws, Lexeme.list_cons hc, ← width_append, ← width_append,
      List.map_cons]
    have hstop : after.position =
        width (pre ++ ws) + (Cut.first c rest).token.value.utf8ByteSize := by
      rw [hat.position_eq, width_append, Cut.utf8ByteSize_token]
    have hspan := Produces.cons hnext hlast
    rw [hstop] at hspan
    exact hspan

/-- With a bound that is large enough a lexer gives the lexemes of its unread text. -/
theorem take_at {bound : Nat} (h : cur.At pre suf) (hb : suf.length ≤ bound) :
    take ⟨cur⟩ bound = .ok (Lexeme.list suf (width pre)) := by
  induction suf using cutInduction generalizing cur pre bound with
  | blanks ws hws =>
    rw [Lexeme.list_blanks hws]
    cases bound with
    | zero => rfl
    | succ bound =>
      obtain ⟨after, hnext, -⟩ := next_blanks h hws
      rw [take, hnext]
      rfl
  | lexeme ws c rest hws hc ih =>
    have hlen := Cut.length_rest_le c rest
    simp only [List.length_append, List.length_cons] at hb
    obtain ⟨bound, rfl⟩ : ∃ b, bound = b + 1 := ⟨bound - 1, by omega⟩
    obtain ⟨after, hnext, hat⟩ := next_lexeme h hws hc
    rw [take, hnext, Lexeme.list_blanks_append hws, Lexeme.list_cons hc]
    simp only [bind, Except.bind, ih hat (by omega : _ ≤ bound), width_append]
    rfl

/-- Streaming through a cursor and cutting the text give the same lexemes, and the cursor never
refuses. -/
theorem toList_ofSource (source : String) :
    (ofSource source).toList = .ok (Lexeme.ofSource source) := by
  have h := Cursor.at_ofSource source
  refine take_at h ?_
  change source.toList.length ≤ (Cursor.ofSource source).unread
  rw [h.unread_eq]
  exact length_le_width _

end Lexer

end RubyLex

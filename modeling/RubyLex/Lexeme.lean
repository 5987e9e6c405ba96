import RubyLex.CharClass
import RubyLex.Token

/-!
# Cutting a text into lexemes

A text is read from the front. Blanks are dropped; any other character starts a lexeme, which
takes the longest text of its class: a word, a number with at most one point, or a symbol.
-/

namespace RubyLex

/-- The number of bytes of a text. -/
def width : List Char → Nat
  | [] => 0
  | c :: cs => c.utf8Size + width cs

@[simp] theorem width_nil : width [] = 0 := rfl

@[simp] theorem width_cons (c : Char) (cs : List Char) :
    width (c :: cs) = c.utf8Size + width cs := rfl

@[simp] theorem width_append (as bs : List Char) : width (as ++ bs) = width as + width bs := by
  induction as with
  | nil => simp
  | cons a as ih => simp [ih, Nat.add_assoc]

/-- A text cut in two: the lexeme at its front, and what follows. -/
structure Cut where
  kind : Kind
  text : List Char
  rest : List Char
deriving DecidableEq, Repr

namespace Cut

/-- A letter and the word parts after it. -/
def word (c : Char) (rest : List Char) : Cut :=
  ⟨.word, c :: rest.takeWhile isWordPart, rest.dropWhile isWordPart⟩

/-- A digit and the digits after it, then a point and its digits if a point follows. The point is
kept even if no digit follows it. -/
def number (c : Char) (rest : List Char) : Cut :=
  match rest.dropWhile isDigit with
  | [] => ⟨.number, c :: rest.takeWhile isDigit, []⟩
  | p :: after =>
    if isPoint p then
      ⟨.number, c :: rest.takeWhile isDigit ++ p :: after.takeWhile isDigit,
        after.dropWhile isDigit⟩
    else
      ⟨.number, c :: rest.takeWhile isDigit, p :: after⟩

/-- An operator, with its extension if that follows. -/
def operator (op : Operator) (c : Char) : List Char → Cut
  | [] => ⟨op.single, [c], []⟩
  | d :: rest =>
    if d = op.extension then ⟨op.extended, [c, d], rest⟩ else ⟨op.single, [c], d :: rest⟩

/-- Punctuation, an operator, or a character without a rule of its own. -/
def symbol (c : Char) (rest : List Char) : Cut :=
  match Kind.punctuation? c with
  | some kind => ⟨kind, [c], rest⟩
  | none =>
    match Operator.ofChar? c with
    | some op => operator op c rest
    | none => ⟨.char, [c], rest⟩

/-- The lexeme that starts with `c`. -/
def first (c : Char) (rest : List Char) : Cut :=
  if isLetter c then word c rest
  else if isDigit c then number c rest
  else symbol c rest

theorem text_append_rest_operator (op : Operator) (c : Char) (rest : List Char) :
    (operator op c rest).text ++ (operator op c rest).rest = c :: rest := by
  cases rest with
  | nil => rfl
  | cons d rest => rw [operator]; split <;> rfl

theorem text_append_rest_number (c : Char) (rest : List Char) :
    (number c rest).text ++ (number c rest).rest = c :: rest := by
  have h := rest.takeWhile_append_dropWhile (p := isDigit)
  unfold number
  split
  · rename_i hd
    simpa [hd] using h
  · rename_i p after hd
    have h' := after.takeWhile_append_dropWhile (p := isDigit)
    split <;> simp_all

theorem text_append_rest_symbol (c : Char) (rest : List Char) :
    (symbol c rest).text ++ (symbol c rest).rest = c :: rest := by
  unfold symbol
  split
  · rfl
  · split
    · exact text_append_rest_operator ..
    · rfl

/-- A cut loses nothing and adds nothing. -/
theorem text_append_rest (c : Char) (rest : List Char) :
    (first c rest).text ++ (first c rest).rest = c :: rest := by
  unfold first
  split
  · simp [word, List.takeWhile_append_dropWhile]
  · split
    · exact text_append_rest_number ..
    · exact text_append_rest_symbol ..

theorem text_ne_nil (c : Char) (rest : List Char) : (first c rest).text ≠ [] := by
  unfold first
  split
  · simp [word]
  · split
    · unfold number; split <;> try split
      all_goals simp
    · unfold symbol
      split
      · simp
      · split
        · cases rest with
          | nil => simp [operator]
          | cons d rest => rw [operator]; split <;> simp
        · simp

theorem length_rest_le (c : Char) (rest : List Char) :
    (first c rest).rest.length ≤ rest.length := by
  have h := congrArg List.length (text_append_rest c rest)
  have h' := List.length_pos_iff.2 (text_ne_nil c rest)
  simp only [List.length_append, List.length_cons] at h
  omega

end Cut

/-- A token with the byte offset at which its text starts. -/
structure Lexeme where
  token : Token
  start : Nat
deriving DecidableEq, Repr

namespace Lexeme

/-- The lexemes of a text whose first character stands at byte `start`. -/
def list : List Char → Nat → List Lexeme
  | [], _ => []
  | c :: rest, start =>
    if isBlank c then list rest (start + c.utf8Size)
    else
      let cut := Cut.first c rest
      ⟨⟨cut.kind, String.ofList cut.text⟩, start⟩ :: list cut.rest (start + width cut.text)
termination_by cs => cs.length
decreasing_by
  · simp
  · exact Nat.lt_succ_of_le (Cut.length_rest_le c rest)

/-- The lexemes of a source. -/
def ofSource (source : String) : List Lexeme :=
  list source.toList 0

/-- The character of a lexeme that no rule matched, with its offset. -/
def unmatched? (l : Lexeme) : Option (Char × Nat) :=
  match l.token.kind with
  | .char => l.token.value.toList.head?.map fun c => (c, l.start)
  | _ => none

end Lexeme

/-- The tokens of a source, in order. -/
def tokenize (source : String) : List Token :=
  (Lexeme.ofSource source).map Lexeme.token

end RubyLex

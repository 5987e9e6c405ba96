/-!
# Reading TOML strings

A reader takes the text from its place on and gives what it read with the text after it, or
nothing. Strings are read in their four styles: on one line or on several, with escapes or
without.
-/

namespace RubyLex.Toml

/-- The blanks inside a line. -/
def isSpace (c : Char) : Bool :=
  c == ' ' || c == '\t'

/-- The characters that may stand in a comment and, marks and backslashes apart, in a string: a
tab, and all that is no control character. -/
def isPlain (c : Char) : Bool :=
  c == '\t' || (0x20 ≤ c.toNat && c.toNat ≠ 0x7f)

/-- The text after the blanks of a line. -/
def skipSpaces (cs : List Char) : List Char :=
  cs.dropWhile isSpace

/-- The text after a line break. -/
def lineBreak? : List Char → Option (List Char)
  | '\n' :: rest => some rest
  | '\r' :: '\n' :: rest => some rest
  | _ => none

/-- The text after blanks and line breaks. -/
def skipLines : List Char → List Char
  | ' ' :: rest => skipLines rest
  | '\t' :: rest => skipLines rest
  | '\n' :: rest => skipLines rest
  | '\r' :: '\n' :: rest => skipLines rest
  | cs => cs

/-! ### Escapes -/

/-- The value of a digit in base sixteen. -/
def hexValue? (c : Char) : Option Nat :=
  if '0' ≤ c ∧ c ≤ '9' then some (c.toNat - 48)
  else if 'a' ≤ c ∧ c ≤ 'f' then some (c.toNat - 87)
  else if 'A' ≤ c ∧ c ≤ 'F' then some (c.toNat - 55)
  else none

/-- The value of exactly `n` digits in base sixteen, continuing a number. -/
def hexNumber? (value : Nat) : Nat → List Char → Option (Nat × List Char)
  | 0, rest => some (value, rest)
  | _ + 1, [] => none
  | n + 1, c :: rest => (hexValue? c).bind fun d => hexNumber? (value * 16 + d) n rest

/-- The character of `n` digits in base sixteen. -/
def codePoint? (n : Nat) (cs : List Char) : Option (Char × List Char) :=
  (hexNumber? 0 n cs).bind fun (value, rest) =>
    if value.isValidChar then some (Char.ofNat value, rest) else none

/-- The character that an escape stands for, its backslash being read. -/
def escape? : List Char → Option (Char × List Char)
  | 'b' :: rest => some ('\x08', rest)
  | 't' :: rest => some ('\t', rest)
  | 'n' :: rest => some ('\n', rest)
  | 'f' :: rest => some ('\x0c', rest)
  | 'r' :: rest => some ('\r', rest)
  | '"' :: rest => some ('"', rest)
  | '\\' :: rest => some ('\\', rest)
  | 'u' :: rest => codePoint? 4 rest
  | 'U' :: rest => codePoint? 8 rest
  | _ => none

theorem length_of_hexNumber? {value n v : Nat} {cs rest : List Char}
    (h : hexNumber? value n cs = some (v, rest)) : rest.length ≤ cs.length := by
  fun_induction hexNumber? value n cs with
  | case1 => cases h; exact Nat.le_refl _
  | case2 => cases h
  | case3 value n c cs ih =>
    obtain ⟨d, -, hd⟩ := Option.bind_eq_some_iff.1 h
    exact Nat.le_succ_of_le (ih d hd)

theorem length_of_codePoint? {n : Nat} {c : Char} {cs rest : List Char}
    (h : codePoint? n cs = some (c, rest)) : rest.length ≤ cs.length := by
  obtain ⟨⟨v, r⟩, hv, hr⟩ := Option.bind_eq_some_iff.1 h
  by_cases hc : v.isValidChar
  · simp only [hc, if_true, Option.some.injEq, Prod.mk.injEq] at hr
    exact hr.2 ▸ length_of_hexNumber? hv
  · simp [hc] at hr

theorem length_of_escape? {c : Char} {cs rest : List Char} (h : escape? cs = some (c, rest)) :
    rest.length < cs.length := by
  unfold escape? at h
  split at h
  case h_8 => exact Nat.lt_succ_of_le (length_of_codePoint? h)
  case h_9 => exact Nat.lt_succ_of_le (length_of_codePoint? h)
  case h_10 => cases h
  all_goals
    simp only [Option.some.injEq, Prod.mk.injEq] at h
    simp [h.2]

theorem length_skipLines_le (cs : List Char) : (skipLines cs).length ≤ cs.length := by
  fun_induction skipLines cs with
  | case4 _ ih => exact Nat.le_succ_of_le (Nat.le_succ_of_le ih)
  | case5 => exact Nat.le_refl _
  | _ _ ih => exact Nat.le_succ_of_le ih

/-- The text after blanks, a line break, and all blanks and line breaks that follow it. -/
def continuation? (cs : List Char) : Option (List Char) :=
  (lineBreak? (skipSpaces cs)).map skipLines

theorem length_of_lineBreak? {cs rest : List Char} (h : lineBreak? cs = some rest) :
    rest.length ≤ cs.length := by
  unfold lineBreak? at h
  split at h
  · cases h; simp
  · cases h; simp; omega
  · cases h

theorem length_of_continuation? {cs rest : List Char} (h : continuation? cs = some rest) :
    rest.length ≤ cs.length := by
  obtain ⟨after, ha, rfl⟩ := Option.map_eq_some_iff.1 h
  have h₁ := length_of_lineBreak? ha
  have h₂ := length_skipLines_le after
  have h₃ := (List.dropWhile_sublist (p := isSpace) (l := cs)).length_le
  simp only [skipSpaces] at h₁
  omega

/-! ### Styles -/

/-- Puts a character in front of what was read after it. -/
def prepend (c : Char) : Option (List Char × List Char) → Option (List Char × List Char) :=
  Option.map fun (text, rest) => (c :: text, rest)

/-- Reads a string up to the double quote that ends it. -/
def basic? : List Char → Option (List Char × List Char)
  | [] => none
  | c :: cs =>
    if c = '"' then some ([], cs)
    else if c = '\\' then
      match _h : escape? cs with
      | none => none
      | some (e, rest) => prepend e (basic? rest)
    else if isPlain c then prepend c (basic? cs)
    else none
termination_by cs => cs.length
decreasing_by
  · exact Nat.lt_succ_of_lt (length_of_escape? _h)
  · exact Nat.lt_succ_self _

/-- Reads a string up to the single quote that ends it, without escapes. -/
def literal? : List Char → Option (List Char × List Char)
  | [] => none
  | c :: cs =>
    if c = '\x27' then some ([], cs)
    else if isPlain c then prepend c (literal? cs)
    else none

/-- What follows the first three of a run of quotes that ends a string of several lines. Up to two
more quotes still belong to the string. -/
def closing (mark : Char) : List Char → List Char × List Char
  | a :: b :: rest =>
    if a = mark then if b = mark then ([a, b], rest) else ([a], b :: rest) else ([], a :: b :: rest)
  | [a] => if a = mark then ([a], []) else ([], [a])
  | [] => ([], [])

/-- The text after three quotes. -/
def threeMarks? (mark : Char) : List Char → Option (List Char)
  | a :: b :: c :: rest => if a = mark ∧ b = mark ∧ c = mark then some rest else none
  | _ => none

/-- Reads a string of several lines up to the double quotes that end it. A backslash before a line
break drops the break and the blanks after it. -/
def basicLines? : List Char → Option (List Char × List Char)
  | [] => none
  | c :: cs =>
    match threeMarks? '"' (c :: cs) with
    | some rest => some (closing '"' rest)
    | none =>
      if c = '\\' then
        match _h : continuation? cs with
        | some rest => basicLines? rest
        | none =>
          match _h : escape? cs with
          | none => none
          | some (e, rest) => prepend e (basicLines? rest)
      else if c = '\n' then prepend c (basicLines? cs)
      else if c = '\r' then
        match cs with
        | '\n' :: rest => prepend '\n' (basicLines? rest)
        | _ => none
      else if isPlain c then prepend c (basicLines? cs)
      else none
termination_by cs => cs.length
decreasing_by
  · exact Nat.lt_succ_of_le (length_of_continuation? _h)
  · exact Nat.lt_succ_of_lt (length_of_escape? _h)
  · simp
  · exact Nat.lt_add_of_pos_right (Nat.zero_lt_two)
  · simp

/-- Reads a string of several lines up to the single quotes that end it, without escapes. -/
def literalLines? : List Char → Option (List Char × List Char)
  | [] => none
  | c :: cs =>
    match threeMarks? '\x27' (c :: cs) with
    | some rest => some (closing '\x27' rest)
    | none =>
      if c = '\n' then prepend c (literalLines? cs)
      else if c = '\r' then
        match cs with
        | '\n' :: rest => prepend '\n' (literalLines? rest)
        | _ => none
      else if isPlain c then prepend c (literalLines? cs)
      else none
termination_by cs => cs.length
decreasing_by
  · simp
  · exact Nat.lt_add_of_pos_right (Nat.zero_lt_two)
  · simp

/-- The text after the line break that may follow the opening quotes of several lines. -/
def afterOpening (cs : List Char) : List Char :=
  (lineBreak? cs).getD cs

/-- Reads a string in any of the four styles. -/
def string? (cs : List Char) : Option (List Char × List Char) :=
  match threeMarks? '"' cs with
  | some rest => basicLines? (afterOpening rest)
  | none =>
    match threeMarks? '\x27' cs with
    | some rest => literalLines? (afterOpening rest)
    | none =>
      match cs with
      | '"' :: rest => basic? rest
      | '\x27' :: rest => literal? rest
      | _ => none

end RubyLex.Toml

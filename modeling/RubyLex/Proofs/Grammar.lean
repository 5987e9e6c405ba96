import RubyLex.Lexeme

/-!
# The grammar of lexemes

What a lexeme of each kind is, said without a word on how a text is cut:

* a word is in `[A-Za-z][A-Za-z0-9_]*`;
* a number is in `[0-9]+(\.[0-9]*)?`;
* a kind with a spelling has that one text;
* any other character that is no blank stands alone.

The character classes are given by their ranges, so that the grammar does not rest on the
predicates that the cuts use.  `Kind.Extends` says which next character makes a longer lexeme out of
a lexeme.
-/

namespace RubyLex

namespace Grammar

/-- `[A-Za-z]`. -/
def Letter (c : Char) : Prop :=
  ('A' ≤ c ∧ c ≤ 'Z') ∨ ('a' ≤ c ∧ c ≤ 'z')

/-- `[0-9]`. -/
def Digit (c : Char) : Prop :=
  '0' ≤ c ∧ c ≤ '9'

/-- `[A-Za-z0-9_]`. -/
def WordPart (c : Char) : Prop :=
  Letter c ∨ Digit c ∨ c = '_'

theorem letter_iff {c : Char} : Letter c ↔ isLetter c = true := by
  rw [isLetter]
  delta Char.isAlpha Char.isUpper Char.isLower
  simp only [Bool.or_eq_true, Bool.and_eq_true, decide_eq_true_eq]
  exact Iff.rfl

theorem digit_iff {c : Char} : Digit c ↔ isDigit c = true := by
  simp only [isDigit, Char.isDigit, Bool.and_eq_true, decide_eq_true_eq]
  exact Iff.rfl

theorem wordPart_iff {c : Char} : WordPart c ↔ isWordPart c = true := by
  rw [WordPart, letter_iff, digit_iff, isWordPart, Bool.or_eq_true, Bool.or_eq_true, beq_iff_eq,
    or_assoc]

theorem Digit.not_letter {c : Char} (h : Digit c) : ¬ Letter c := by
  have hnine : c.val.toNat ≤ 57 := h.2
  rintro (⟨hle, -⟩ | ⟨hle, -⟩)
  · have : 65 ≤ c.val.toNat := hle
    omega
  · have : 97 ≤ c.val.toNat := hle
    omega

end Grammar

open Grammar

/-- The texts of each kind. -/
inductive Kind.Matches : Kind → List Char → Prop
  | word {c : Char} {cs : List Char} :
      Letter c → (∀ d ∈ cs, WordPart d) → Matches .word (c :: cs)
  | whole {ds : List Char} : ds ≠ [] → (∀ d ∈ ds, Digit d) → Matches .number ds
  | decimal {ds fs : List Char} :
      ds ≠ [] → (∀ d ∈ ds, Digit d) → (∀ d ∈ fs, Digit d) → Matches .number (ds ++ '.' :: fs)
  | spelled {k : Kind} {cs : List Char} : k.spelling? = some (String.ofList cs) → Matches k cs
  | char {c : Char} :
      isBlank c = false → ¬ Letter c → ¬ Digit c → punctuation? c = none →
        Operator.ofChar? c = none → Matches .char [c]

/-- The value of the token is a text of its kind. -/
def Token.WellFormed (t : Token) : Prop :=
  t.kind.Matches t.value.toList

/-- The character goes on with the lexeme: the two together start a longer lexeme. -/
def Kind.Extends (k : Kind) (text : List Char) (c : Char) : Prop :=
  (k = .word ∧ WordPart c) ∨
  (k = .number ∧ '.' ∉ text ∧ (Digit c ∨ c = '.')) ∨
  (k = .number ∧ '.' ∈ text ∧ Digit c) ∨
  ∃ d op, Operator.ofChar? d = some op ∧ k = op.single ∧ c = op.extension

/-- The text that follows a lexeme does not go on with it. -/
def Kind.Stops (k : Kind) (text rest : List Char) : Prop :=
  ∀ c, rest.head? = some c → ¬ k.Extends text c

theorem Kind.stops_nil (k : Kind) (text : List Char) : k.Stops text [] := by
  intro c hc
  cases hc

theorem Kind.Stops.of_head?_eq {k : Kind} {text as bs : List Char} (h : k.Stops text as)
    (he : bs.head? = as.head?) : k.Stops text bs := by
  intro c hc
  exact h c (he ▸ hc)

/-! ## The two symbol tables

Punctuation and operators are looked up by their first character.  The tables agree with the
spellings: they list every kind that has one, and no other. -/

/-- The character belongs to no class that the cuts ask for before the tables. -/
structure Symbolic (c : Char) : Prop where
  not_blank : isBlank c = false
  not_letter : isLetter c = false
  not_digit : isDigit c = false

instance (c : Char) : Decidable (Symbolic c) :=
  decidable_of_iff (isBlank c = false ∧ isLetter c = false ∧ isDigit c = false)
    ⟨fun h ↦ ⟨h.1, h.2.1, h.2.2⟩, fun h ↦ ⟨h.1, h.2, h.3⟩⟩

theorem Symbolic.of_punctuation? {c : Char} {k : Kind} (h : Kind.punctuation? c = some k) :
    Symbolic c := by
  unfold Kind.punctuation? at h
  split at h <;> first | decide | cases h

theorem Symbolic.of_operator {c : Char} {op : Operator} (h : Operator.ofChar? c = some op) :
    Symbolic c := by
  unfold Operator.ofChar? at h
  split at h <;> first | decide | cases h

theorem Symbolic.extension {c : Char} {op : Operator} (h : Operator.ofChar? c = some op) :
    Symbolic op.extension := by
  unfold Operator.ofChar? at h
  split at h <;> cases h <;> decide

theorem Kind.spelling?_of_punctuation? {c : Char} {k : Kind} (h : punctuation? c = some k) :
    k.spelling? = some (String.ofList [c]) := by
  unfold punctuation? at h
  split at h <;> cases h <;> rfl

namespace Operator

variable {c : Char} {op : Operator}

theorem spelling?_single (h : ofChar? c = some op) :
    op.single.spelling? = some (String.ofList [c]) := by
  unfold ofChar? at h
  split at h <;> cases h <;> rfl

theorem spelling?_extended (h : ofChar? c = some op) :
    op.extended.spelling? = some (String.ofList [c, op.extension]) := by
  unfold ofChar? at h
  split at h <;> cases h <;> rfl

/-- No character is in both tables. -/
theorem punctuation?_eq_none (h : ofChar? c = some op) : Kind.punctuation? c = none := by
  unfold ofChar? at h
  split at h <;> first | rfl | cases h

end Operator

/-- A spelling is a punctuation character, or an operator with or without its extension. -/
theorem Kind.spelling?_cases {k : Kind} {cs : List Char}
    (h : k.spelling? = some (String.ofList cs)) :
    (∃ c, cs = [c] ∧ punctuation? c = some k) ∨
      ∃ c op, Operator.ofChar? c = some op ∧
        ((cs = [c] ∧ k = op.single) ∨ (cs = [c, op.extension] ∧ k = op.extended)) := by
  have eq_of {text : List Char} (ht : k.spelling? = some (String.ofList text)) : cs = text :=
    String.ofList_inj.mp (Option.some.inj (h.symm.trans ht))
  have extended (c : Char) {op : Operator} (hc : Operator.ofChar? c = some op)
      (hk : k = op.extended) : ∃ c op, Operator.ofChar? c = some op ∧
        ((cs = [c] ∧ k = op.single) ∨ (cs = [c, op.extension] ∧ k = op.extended)) :=
    ⟨c, op, hc, .inr ⟨eq_of (hk ▸ Operator.spelling?_extended hc), hk⟩⟩
  cases k
  case word | number | char => cases h
  case ampersand | equals | pipe | minus | plus | times | divide | atSign =>
    exact .inr ⟨_, _, rfl, .inl ⟨eq_of rfl, rfl⟩⟩
  case doubleAmpersand => exact .inr (extended '&' rfl rfl)
  case doubleEquals => exact .inr (extended '=' rfl rfl)
  case doublePipe => exact .inr (extended '|' rfl rfl)
  case minusEquals => exact .inr (extended '-' rfl rfl)
  case plusEquals => exact .inr (extended '+' rfl rfl)
  case timesEquals => exact .inr (extended '*' rfl rfl)
  case divideEquals => exact .inr (extended '/' rfl rfl)
  case doubleAtSign => exact .inr (extended '@' rfl rfl)
  all_goals exact .inl ⟨_, eq_of rfl, rfl⟩

/-! ## What extends what -/

namespace Kind

variable {k : Kind} {text : List Char} {c : Char}

/-- Of the kinds with a spelling only the single operators extend, each by its own character. -/
theorem Extends.operator_of_spelled {cs : List Char} (h : k.Extends text c)
    (hs : k.spelling? = some (String.ofList cs)) :
    ∃ d op, Operator.ofChar? d = some op ∧ cs = [d] ∧ c = op.extension := by
  rcases h with ⟨rfl, -⟩ | ⟨rfl, -⟩ | ⟨rfl, -⟩ | ⟨d, op, hop, rfl, hc⟩
  · cases hs
  · cases hs
  · cases hs
  · rw [Operator.spelling?_single hop] at hs
    exact ⟨d, op, hop, (String.ofList_inj.mp (Option.some.inj hs)).symm, hc⟩

theorem ne_single_of_spelling?_eq_none {d : Char} {op : Operator} (hk : k.spelling? = none)
    (hop : Operator.ofChar? d = some op) : k ≠ op.single := by
  rintro rfl
  rw [Operator.spelling?_single hop] at hk
  cases hk

theorem extends_word_iff : Extends .word text c ↔ WordPart c := by
  constructor
  · rintro (⟨-, h⟩ | ⟨hk, -⟩ | ⟨hk, -⟩ | ⟨d, op, hop, hk, -⟩)
    · exact h
    · cases hk
    · cases hk
    · exact absurd hk (ne_single_of_spelling?_eq_none rfl hop)
  · exact fun h ↦ .inl ⟨rfl, h⟩

theorem extends_number_iff : Extends .number text c ↔ Digit c ∨ ('.' ∉ text ∧ c = '.') := by
  constructor
  · rintro (⟨hk, -⟩ | ⟨-, ht, h | h⟩ | ⟨-, -, h⟩ | ⟨d, op, hop, hk, -⟩)
    · cases hk
    · exact .inl h
    · exact .inr ⟨ht, h⟩
    · exact .inl h
    · exact absurd hk (ne_single_of_spelling?_eq_none rfl hop)
  · rintro (h | ⟨ht, h⟩)
    · by_cases ht : '.' ∈ text
      · exact .inr (.inr (.inl ⟨rfl, ht, h⟩))
      · exact .inr (.inl ⟨rfl, ht, .inl h⟩)
    · exact .inr (.inl ⟨rfl, ht, .inr h⟩)

theorem not_extends_char : ¬ Extends .char text c := by
  rintro (⟨hk, -⟩ | ⟨hk, -⟩ | ⟨hk, -⟩ | ⟨d, op, hop, hk, -⟩)
  · cases hk
  · cases hk
  · cases hk
  · exact ne_single_of_spelling?_eq_none rfl hop hk

end Kind

/-! ## Blanks -/

theorem isWordPart_of_isBlank {c : Char} (h : isBlank c = true) : isWordPart c = false := by
  simp only [isBlank, Bool.or_eq_true, beq_iff_eq] at h
  rcases h with ((((rfl | rfl) | rfl) | rfl) | rfl) | rfl <;> decide

theorem isBlank_of_isWordPart {c : Char} (h : isWordPart c = true) : isBlank c = false := by
  cases hb : isBlank c with
  | false => rfl
  | true => rw [isWordPart_of_isBlank hb] at h; cases h

namespace Kind

variable {k : Kind} {text : List Char}

theorem Matches.ne_nil (h : k.Matches text) : text ≠ [] := by
  cases h with
  | word => exact List.cons_ne_nil _ _
  | whole hds => exact hds
  | decimal => simp
  | spelled hs =>
    rcases spelling?_cases hs with ⟨c, rfl, -⟩ | ⟨c, op, -, ⟨rfl, -⟩ | ⟨rfl, -⟩⟩
    all_goals exact List.cons_ne_nil _ _
  | char => exact List.cons_ne_nil _ _

/-- No lexeme contains a blank. -/
theorem Matches.not_blank (h : k.Matches text) : ∀ c ∈ text, isBlank c = false := by
  have digit {c : Char} (hc : Digit c) : isBlank c = false :=
    isBlank_of_isWordPart (isWordPart_of_isDigit (digit_iff.mp hc))
  intro c hc
  cases h with
  | word hl hcs =>
    rcases List.mem_cons.mp hc with rfl | hc
    · exact isBlank_of_isWordPart (isWordPart_of_isLetter (letter_iff.mp hl))
    · exact isBlank_of_isWordPart (wordPart_iff.mp (hcs c hc))
  | whole _ hds => exact digit (hds c hc)
  | decimal _ hds hfs =>
    rcases List.mem_append.mp hc with hc | hc
    · exact digit (hds c hc)
    · rcases List.mem_cons.mp hc with rfl | hc
      · decide
      · exact digit (hfs c hc)
  | spelled hs =>
    rcases spelling?_cases hs with ⟨d, rfl, hd⟩ | ⟨d, op, hd, ⟨rfl, -⟩ | ⟨rfl, -⟩⟩
    · rw [List.mem_singleton.mp hc]
      exact (Symbolic.of_punctuation? hd).not_blank
    · rw [List.mem_singleton.mp hc]
      exact (Symbolic.of_operator hd).not_blank
    · rcases List.mem_cons.mp hc with rfl | hc
      · exact (Symbolic.of_operator hd).not_blank
      · rw [List.mem_singleton.mp hc]
        exact (Symbolic.extension hd).not_blank
  | char hb => rw [List.mem_singleton.mp hc]; exact hb

/-- A blank goes on with no lexeme. -/
theorem not_extends_of_isBlank {c : Char} (hc : isBlank c = true) : ¬ k.Extends text c := by
  have hw : ¬ WordPart c := by simp [wordPart_iff, isWordPart_of_isBlank hc]
  have hd : ¬ Digit c := fun h ↦ hw (.inr (.inl h))
  rintro (⟨-, h⟩ | ⟨-, -, h | rfl⟩ | ⟨-, -, h⟩ | ⟨d, op, hop, -, rfl⟩)
  · exact hw h
  · exact hd h
  · cases hc
  · exact hd h
  · rw [(Symbolic.extension hop).not_blank] at hc
    cases hc

end Kind

end RubyLex

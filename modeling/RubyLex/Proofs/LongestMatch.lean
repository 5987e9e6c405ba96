import Mathlib.Data.List.TakeWhile
import RubyLex.Proofs.Grammar
import RubyLex.Proofs.Stream

/-!
# Longest match

A cut and the grammar determine each other: the front of a cut is a lexeme which the rest does not
extend, and a lexeme in front of a text that does not extend it is the cut of the whole.  From the
second half everything else is read off: the kind of a lexeme is a function of its text, and no
longer text in front of the source is a lexeme.
-/

namespace RubyLex

open Grammar

/-! ## Runs of one class -/

section Runs

variable {p : Char → Bool} {cs rest : List Char}

theorem takeWhile_append_of_stop (hcs : ∀ c ∈ cs, p c = true)
    (hrest : ∀ c, rest.head? = some c → p c = false) : (cs ++ rest).takeWhile p = cs := by
  rw [List.takeWhile_append_of_pos hcs]
  cases rest with
  | nil => simp
  | cons c rest => simp [hrest c rfl]

theorem dropWhile_append_of_stop (hcs : ∀ c ∈ cs, p c = true)
    (hrest : ∀ c, rest.head? = some c → p c = false) : (cs ++ rest).dropWhile p = rest := by
  rw [List.dropWhile_append_of_pos hcs]
  cases rest with
  | nil => rfl
  | cons c rest => simp [hrest c rfl]

theorem of_head?_dropWhile {c : Char} (h : (rest.dropWhile p).head? = some c) : p c = false := by
  have hnot := List.head?_dropWhile_not p rest
  rw [h] at hnot
  exact hnot

end Runs

namespace Cut

/-! ## A cut is a lexeme that stops -/

theorem matches_number {c : Char} (hc : isDigit c = true) (rest : List Char) :
    (number c rest).kind.Matches (number c rest).text := by
  have digits (cs : List Char) : ∀ d ∈ cs.takeWhile isDigit, Digit d :=
    fun d hd ↦ digit_iff.mpr (List.mem_takeWhile_imp hd)
  have whole : ∀ d ∈ c :: rest.takeWhile isDigit, Digit d := by
    intro d hd
    rcases List.mem_cons.mp hd with rfl | hd
    · exact digit_iff.mpr hc
    · exact digits rest d hd
  unfold number
  split
  · exact .whole (List.cons_ne_nil _ _) whole
  · rename_i q after _
    split
    · rename_i hq
      obtain rfl : q = '.' := by simpa [isPoint] using hq
      exact .decimal (List.cons_ne_nil _ _) whole (digits after)
    · exact .whole (List.cons_ne_nil _ _) whole

theorem matches_operator {c : Char} {op : Operator} (hop : Operator.ofChar? c = some op)
    (rest : List Char) : (operator op c rest).kind.Matches (operator op c rest).text := by
  cases rest with
  | nil => exact .spelled (Operator.spelling?_single hop)
  | cons d rest =>
    rw [operator]
    split
    · rename_i hd
      rw [hd]
      exact .spelled (Operator.spelling?_extended hop)
    · exact .spelled (Operator.spelling?_single hop)

/-- The front of a cut is a lexeme. -/
theorem matches_first {c : Char} (hc : isBlank c = false) (rest : List Char) :
    (first c rest).kind.Matches (first c rest).text := by
  unfold first
  split
  · rename_i hl
    exact .word (letter_iff.mpr hl) fun d hd ↦ wordPart_iff.mpr (List.mem_takeWhile_imp hd)
  · rename_i hl
    split
    · rename_i hd
      exact matches_number hd rest
    · rename_i hd
      unfold symbol
      split
      · rename_i k hk
        exact .spelled (Kind.spelling?_of_punctuation? hk)
      · rename_i hk
        split
        · rename_i op hop
          exact matches_operator hop rest
        · rename_i hop
          exact .char hc (fun h ↦ hl (letter_iff.mp h)) (fun h ↦ hd (digit_iff.mp h)) hk hop

theorem stops_number (c : Char) (rest : List Char) :
    (number c rest).kind.Stops (number c rest).text (number c rest).rest := by
  unfold number
  split
  · exact Kind.stops_nil _ _
  · rename_i q after hq
    have hqd : ¬ Digit q := by
      rw [digit_iff, of_head?_dropWhile (p := isDigit) (by rw [hq]; rfl)]
      exact Bool.false_ne_true
    split
    · rename_i hp
      obtain rfl : q = '.' := by simpa [isPoint] using hp
      intro d hd he
      rcases Kind.extends_number_iff.mp he with h | ⟨hpoint, -⟩
      · rw [digit_iff, of_head?_dropWhile hd] at h
        cases h
      · exact hpoint (by simp)
    · rename_i hp
      intro d hd he
      obtain rfl : q = d := Option.some.inj hd
      rcases Kind.extends_number_iff.mp he with h | ⟨-, rfl⟩
      · exact hqd h
      · exact hp rfl

theorem stops_operator {c : Char} {op : Operator} (hop : Operator.ofChar? c = some op)
    (rest : List Char) :
    (operator op c rest).kind.Stops (operator op c rest).text (operator op c rest).rest := by
  cases rest with
  | nil => exact Kind.stops_nil _ _
  | cons d rest =>
    rw [operator]
    split
    · intro e _ he
      obtain ⟨b, _, -, hcs, -⟩ := he.operator_of_spelled (Operator.spelling?_extended hop)
      cases hcs
    · rename_i hd
      intro e hde he
      obtain ⟨b, op', hop', hcs, rfl⟩ := he.operator_of_spelled (Operator.spelling?_single hop)
      obtain rfl : c = b := List.singleton_inj.mp hcs
      obtain rfl : op = op' := Option.some.inj (hop.symm.trans hop')
      exact hd (Option.some.inj hde)

/-- What a cut leaves does not go on with its front. -/
theorem stops_first (c : Char) (rest : List Char) :
    (first c rest).kind.Stops (first c rest).text (first c rest).rest := by
  unfold first
  split
  · intro d hd he
    have hw := Kind.extends_word_iff.mp he
    rw [wordPart_iff, of_head?_dropWhile hd] at hw
    cases hw
  · split
    · exact stops_number c rest
    · unfold symbol
      split
      · rename_i k hk
        intro d _ he
        obtain ⟨b, op, hop, hcs, -⟩ :=
          he.operator_of_spelled (Kind.spelling?_of_punctuation? hk)
        obtain rfl : c = b := List.singleton_inj.mp hcs
        rw [Operator.punctuation?_eq_none hop] at hk
        cases hk
      · split
        · rename_i op hop
          exact stops_operator hop rest
        · exact fun d _ ↦ Kind.not_extends_char

/-! ## A lexeme that stops is a cut -/

theorem word_append {c : Char} {cs rest : List Char} (hcs : ∀ d ∈ cs, WordPart d)
    (hs : Kind.word.Stops (c :: cs) rest) : word c (cs ++ rest) = ⟨.word, c :: cs, rest⟩ := by
  have parts : ∀ d ∈ cs, isWordPart d = true := fun d hd ↦ wordPart_iff.mp (hcs d hd)
  have stop : ∀ d, rest.head? = some d → isWordPart d = false := by
    intro d hd
    have hw : ¬ WordPart d := fun h ↦ hs d hd (Kind.extends_word_iff.mpr h)
    simpa [wordPart_iff] using hw
  rw [word, takeWhile_append_of_stop parts stop, dropWhile_append_of_stop parts stop]

theorem isDigit_of_stops {text rest : List Char} (hs : Kind.number.Stops text rest) :
    ∀ d, rest.head? = some d → isDigit d = false := by
  intro d hd
  have hdigit : ¬ Digit d := fun h ↦ hs d hd (Kind.extends_number_iff.mpr (.inl h))
  simpa [digit_iff] using hdigit

theorem number_append_whole {c : Char} {ds rest : List Char}
    (hds : ∀ d ∈ ds, isDigit d = true) (hpoint : '.' ∉ c :: ds)
    (hs : Kind.number.Stops (c :: ds) rest) :
    number c (ds ++ rest) = ⟨.number, c :: ds, rest⟩ := by
  have stop := isDigit_of_stops hs
  unfold number
  rw [takeWhile_append_of_stop hds stop, dropWhile_append_of_stop hds stop]
  cases rest with
  | nil => rfl
  | cons q rest =>
    have hne : q ≠ '.' := fun h ↦ hs q rfl (Kind.extends_number_iff.mpr (.inr ⟨hpoint, h⟩))
    have hq : isPoint q = false := by simpa [isPoint] using hne
    simp [hq]

theorem number_append_decimal {c : Char} {ds fs rest : List Char}
    (hds : ∀ d ∈ ds, isDigit d = true) (hfs : ∀ d ∈ fs, isDigit d = true)
    (hs : Kind.number.Stops (c :: ds ++ '.' :: fs) rest) :
    number c (ds ++ '.' :: (fs ++ rest)) = ⟨.number, c :: ds ++ '.' :: fs, rest⟩ := by
  have stop := isDigit_of_stops hs
  have point : ∀ d, ('.' :: (fs ++ rest)).head? = some d → isDigit d = false := by
    intro d hd
    obtain rfl : '.' = d := Option.some.inj hd
    rfl
  have hp : isPoint '.' = true := rfl
  unfold number
  rw [takeWhile_append_of_stop hds point, dropWhile_append_of_stop hds point]
  simp only [hp, if_true, takeWhile_append_of_stop hfs stop, dropWhile_append_of_stop hfs stop]

theorem symbol_append {k : Kind} {c : Char} {cs rest : List Char}
    (hk : k.spelling? = some (String.ofList (c :: cs))) (hs : k.Stops (c :: cs) rest) :
    symbol c (cs ++ rest) = ⟨k, c :: cs, rest⟩ := by
  unfold symbol
  rcases Kind.spelling?_cases hk with ⟨d, hcs, hd⟩ | ⟨d, op, hop, ⟨hcs, rfl⟩ | ⟨hcs, rfl⟩⟩
  · obtain ⟨rfl, rfl⟩ := List.cons_eq_cons.mp hcs
    rw [hd]
    rfl
  · obtain ⟨rfl, rfl⟩ := List.cons_eq_cons.mp hcs
    rw [Operator.punctuation?_eq_none hop, hop]
    cases rest with
    | nil => rfl
    | cons e rest =>
      have he : e ≠ op.extension := fun h ↦ hs e rfl (.inr (.inr (.inr ⟨c, op, hop, rfl, h⟩)))
      change operator op c (e :: rest) = _
      rw [operator, if_neg he]
  · obtain ⟨rfl, rfl⟩ := List.cons_eq_cons.mp hcs
    rw [Operator.punctuation?_eq_none hop, hop]
    change operator op c (op.extension :: rest) = _
    rw [operator, if_pos rfl]

theorem first_eq_word {c : Char} (hc : Letter c) (rest : List Char) :
    first c rest = word c rest := by
  rw [first, if_pos (letter_iff.mp hc)]

theorem first_eq_number {c : Char} (hc : Digit c) (rest : List Char) :
    first c rest = number c rest := by
  rw [first, if_neg (fun h ↦ hc.not_letter (letter_iff.mpr h)), if_pos (digit_iff.mp hc)]

theorem first_eq_symbol {c : Char} (hl : isLetter c = false) (hd : isDigit c = false)
    (rest : List Char) : first c rest = symbol c rest := by
  rw [first, if_neg (by simp [hl]), if_neg (by simp [hd])]

/-- A lexeme in front of a text that does not go on with it is the cut of the whole. -/
theorem first_append {k : Kind} {c : Char} {cs rest : List Char} (hm : k.Matches (c :: cs))
    (hs : k.Stops (c :: cs) rest) : first c (cs ++ rest) = ⟨k, c :: cs, rest⟩ := by
  have digits {ds : List Char} (h : ∀ d ∈ ds, Digit d) : ∀ d ∈ ds, isDigit d = true :=
    fun d hd ↦ digit_iff.mp (h d hd)
  -- The text of a decimal is no cons by form, so the cases are taken of a text that equals it.
  generalize ht : c :: cs = text at hm hs
  cases hm with
  | word hl hcs =>
    obtain ⟨rfl, rfl⟩ := List.cons_eq_cons.mp ht
    rw [first_eq_word hl, word_append hcs hs]
  | whole _ hds =>
    subst ht
    have hpoint : '.' ∉ c :: cs := fun h ↦ absurd (digit_iff.mp (hds '.' h)) (by decide)
    rw [first_eq_number (hds c List.mem_cons_self),
      number_append_whole (digits fun d hd ↦ hds d (List.mem_cons_of_mem c hd)) hpoint hs]
  | @decimal ds fs hne hds hfs =>
    obtain ⟨d, ds, rfl⟩ := List.exists_cons_of_ne_nil hne
    rw [List.cons_append] at ht
    obtain ⟨rfl, rfl⟩ := List.cons_eq_cons.mp ht
    rw [first_eq_number (hds c List.mem_cons_self), List.append_assoc, List.cons_append,
      number_append_decimal (digits fun d hd ↦ hds d (List.mem_cons_of_mem c hd)) (digits hfs) hs]
  | spelled hk =>
    subst ht
    have hc : Symbolic c := by
      rcases Kind.spelling?_cases hk with ⟨d, hcs, hd⟩ | ⟨d, op, hop, ⟨hcs, -⟩ | ⟨hcs, -⟩⟩
      · exact (List.cons_eq_cons.mp hcs).1 ▸ .of_punctuation? hd
      · exact (List.cons_eq_cons.mp hcs).1 ▸ .of_operator hop
      · exact (List.cons_eq_cons.mp hcs).1 ▸ .of_operator hop
    rw [first_eq_symbol hc.not_letter hc.not_digit, symbol_append hk hs]
  | char _ hl hd hk hop =>
    obtain ⟨rfl, rfl⟩ := List.cons_eq_cons.mp ht
    rw [first_eq_symbol (by simpa [letter_iff] using hl) (by simpa [digit_iff] using hd), symbol,
      hk, hop]
    rfl

/-- A lexeme alone is cut whole. -/
theorem first_of_matches {k : Kind} {c : Char} {cs : List Char} (hm : k.Matches (c :: cs)) :
    first c cs = ⟨k, c :: cs, []⟩ := by
  simpa using first_append hm (Kind.stops_nil k (c :: cs))

end Cut

/-- The grammar can be decided by cutting: a lexeme is a text that is cut whole. -/
theorem Kind.matches_cons_iff {k : Kind} {c : Char} {cs : List Char} :
    k.Matches (c :: cs) ↔ isBlank c = false ∧ Cut.first c cs = ⟨k, c :: cs, []⟩ := by
  constructor
  · intro h
    exact ⟨h.not_blank c List.mem_cons_self, Cut.first_of_matches h⟩
  · rintro ⟨hc, hcut⟩
    have hm := Cut.matches_first hc cs
    rwa [hcut] at hm

instance (k : Kind) : (text : List Char) → Decidable (k.Matches text)
  | [] => .isFalse fun h ↦ h.ne_nil rfl
  | _ :: _ => decidable_of_iff _ Kind.matches_cons_iff.symm

instance (t : Token) : Decidable t.WellFormed :=
  inferInstanceAs (Decidable (t.kind.Matches t.value.toList))

/-- A text is a lexeme of at most one kind. -/
theorem Kind.Matches.kind_eq {k k' : Kind} {text : List Char} (h : k.Matches text)
    (h' : k'.Matches text) : k = k' := by
  obtain ⟨c, cs, rfl⟩ := List.exists_cons_of_ne_nil h.ne_nil
  have hcut := (Cut.first_of_matches h).symm.trans (Cut.first_of_matches h')
  exact congrArg Cut.kind hcut

/-- Nothing longer than the front of a cut is a lexeme. -/
theorem Cut.not_matches_longer {c : Char} (hc : isBlank c = false) {rest text : List Char}
    (htext : text <+: c :: rest) (hlt : (first c rest).text.length < text.length) (k : Kind) :
    ¬ k.Matches text := by
  intro hm
  have hcut := text_append_rest c rest
  -- The front is a part of the longer text, and what is missing starts what the cut leaves.
  obtain ⟨more, rfl⟩ := List.prefix_of_prefix_length_le ⟨_, hcut⟩ htext (Nat.le_of_lt hlt)
  obtain ⟨post, hpost⟩ := htext
  have hrest : (first c rest).rest = more ++ post := by
    rw [← hcut, List.append_assoc] at hpost
    exact (List.append_cancel_left hpost).symm
  obtain ⟨d, more, rfl⟩ : ∃ d ds, more = d :: ds := by
    apply List.exists_cons_of_ne_nil
    rintro rfl
    simp at hlt
  have hstops : (first c rest).kind.Stops (first c rest).text (d :: more) :=
    (stops_first c rest).of_head?_eq (by rw [hrest]; rfl)
  have hfront := matches_first hc rest
  obtain ⟨b, bs, hb⟩ := List.exists_cons_of_ne_nil hfront.ne_nil
  rw [hb] at hstops hfront hm
  have hshort := first_append hfront hstops
  have hlong := first_of_matches (by simpa using hm)
  exact absurd (congrArg Cut.rest (hshort.symm.trans hlong)) (List.cons_ne_nil d more)

/-! ## The tokens of a source -/

theorem Cut.wellFormed_token {c : Char} (hc : isBlank c = false) (rest : List Char) :
    (first c rest).token.WellFormed := by
  rw [Token.WellFormed, toList_token]
  exact matches_first hc rest

theorem wellFormed_of_mem_tokenize {t : Token} {s : String} (h : t ∈ tokenize s) :
    t.WellFormed := by
  obtain ⟨l, hl, rfl⟩ := List.mem_map.mp h
  obtain ⟨before, c, rest, -, hc, rfl⟩ := Lexeme.mem_ofSource hl
  exact Cut.wellFormed_token hc rest

/-- The token at each offset is the longest lexeme there: its text is a lexeme of its kind and of no
other, and no longer text that starts at the offset is a lexeme of any kind. -/
theorem token_longest_lexeme (s : String) :
    ∃ ls, (Lexer.ofSource s).toList = .ok ls ∧ ls.map Lexeme.token = tokenize s ∧
      ∀ l ∈ ls,
        l.token.kind.Matches l.token.value.toList ∧
        (∀ k : Kind, k.Matches l.token.value.toList → k = l.token.kind) ∧
        l.token.value.toList <+: (textFrom s l.start).toList ∧
        ∀ text, text <+: (textFrom s l.start).toList →
          l.token.value.toList.length < text.length → ∀ k : Kind, ¬ k.Matches text := by
  refine ⟨Lexeme.ofSource s, Lexer.toList_ofSource s, rfl, ?_⟩
  intro l hl
  obtain ⟨before, c, rest, rfl, hc, rfl⟩ := Lexeme.mem_ofSource hl
  have hfrom : (textFrom (String.ofList (before ++ c :: rest)) (width before)).toList =
      c :: rest := by
    rw [textFrom_width, String.toList_ofList]
  have hm := Cut.wellFormed_token hc rest
  refine ⟨hm, fun k hk ↦ hk.kind_eq hm, ?_, ?_⟩
  · rw [hfrom, Cut.toList_token]
    exact ⟨_, Cut.text_append_rest c rest⟩
  rw [hfrom, Cut.toList_token]
  intro text htext hlt k
  exact Cut.not_matches_longer hc htext hlt k

end RubyLex

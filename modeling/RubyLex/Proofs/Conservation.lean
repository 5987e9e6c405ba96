import RubyLex.Command.Tokenize
import RubyLex.Proofs.Tiling

/-!
# Characters that stand alone

Every character of a source that is no blank is in one lexeme, at its own offset
(`filter_placed_list`).  A character without a rule is in no lexeme but one of its own, and so is
punctuation, but for the point and the underscore: these are also in numbers and in words.  What
stands alone can thus be counted and found in the source as well as among its tokens, and what is
reported about characters without a rule is exact.
-/

namespace RubyLex

open Grammar

/-! ## Characters at their offsets -/

/-- The characters of a text whose first character stands at byte `start`, with their offsets. -/
def placed : List Char → Nat → List (Char × Nat)
  | [], _ => []
  | c :: cs, start => (c, start) :: placed cs (start + c.utf8Size)

/-- The characters of a source with the byte offsets at which they stand. -/
def characters (s : String) : List (Char × Nat) :=
  placed s.toList 0

/-- The characters of a lexeme with the byte offsets at which they stand in the source. -/
def Lexeme.characters (l : Lexeme) : List (Char × Nat) :=
  placed l.token.value.toList l.start

theorem placed_append (as bs : List Char) (n : Nat) :
    placed (as ++ bs) n = placed as n ++ placed bs (n + width as) := by
  induction as generalizing n with
  | nil => rfl
  | cons a as ih => simp [placed, ih, Nat.add_assoc]

theorem mem_of_mem_placed {c : Char} {m n : Nat} {cs : List Char} (h : (c, m) ∈ placed cs n) :
    c ∈ cs := by
  induction cs generalizing n with
  | nil => cases h
  | cons d cs ih =>
    rcases List.mem_cons.mp h with h | h
    · exact (Prod.mk.inj h).1 ▸ List.mem_cons_self
    · exact List.mem_cons_of_mem d (ih h)

/-- A character of a text starts inside it. -/
theorem bounds_of_mem_placed {c : Char} {m n : Nat} {cs : List Char} (h : (c, m) ∈ placed cs n) :
    n ≤ m ∧ m < n + width cs := by
  induction cs generalizing n with
  | nil => cases h
  | cons d cs ih =>
    have hd := d.utf8Size_pos
    rw [width_cons]
    rcases List.mem_cons.mp h with h | h
    · obtain ⟨-, rfl⟩ := Prod.mk.inj h
      omega
    · have hm := ih h
      omega

theorem filter_placed_eq_nil {p : Char → Bool} {cs : List Char} (h : ∀ c ∈ cs, p c = false)
    (n : Nat) : (placed cs n).filter (fun o ↦ p o.1) = [] := by
  rw [List.filter_eq_nil_iff]
  rintro ⟨c, m⟩ hc
  simp [h c (mem_of_mem_placed hc)]

theorem filter_placed_eq_self {p : Char → Bool} {cs : List Char} (h : ∀ c ∈ cs, p c = true)
    (n : Nat) : (placed cs n).filter (fun o ↦ p o.1) = placed cs n := by
  rw [List.filter_eq_self]
  rintro ⟨c, m⟩ hc
  exact h c (mem_of_mem_placed hc)

/-- The characters that are no blanks are those of the lexemes, in order and each at its offset. -/
theorem filter_placed_list (cs : List Char) (n : Nat) :
    (placed cs n).filter (fun o ↦ !isBlank o.1) = (Lexeme.list cs n).flatMap Lexeme.characters := by
  have blank {ws : List Char} (hws : Blanks ws) : ∀ c ∈ ws, (!isBlank c) = false :=
    fun c hc ↦ by simp [hws c hc]
  induction cs using cutInduction generalizing n with
  | blanks ws hws =>
    rw [Lexeme.list_blanks hws, filter_placed_eq_nil (p := fun c ↦ !isBlank c) (blank hws)]
    rfl
  | lexeme ws c rest hws hc ih =>
    have htext : ∀ d ∈ (Cut.first c rest).text, (!isBlank d) = true := by
      intro d hd
      simp [(Cut.matches_first hc rest).not_blank d hd]
    have hfront : Lexeme.characters ⟨(Cut.first c rest).token, n + width ws⟩ =
        placed (Cut.first c rest).text (n + width ws) := by
      rw [Lexeme.characters, Cut.toList_token]
    rw [Lexeme.list_blanks_append hws, Lexeme.list_cons hc, List.flatMap_cons, hfront, ← ih,
      placed_append, List.filter_append, ← Cut.text_append_rest c rest, placed_append,
      List.filter_append, filter_placed_eq_nil (p := fun c ↦ !isBlank c) (blank hws),
      filter_placed_eq_self (p := fun c ↦ !isBlank c) htext, List.nil_append]

/-! ## Which lexemes a character is in -/

/-- No rule is about the character. -/
def isUnruled (c : Char) : Bool :=
  !isBlank c && !isLetter c && !isDigit c && (Kind.punctuation? c).isNone &&
    (Operator.ofChar? c).isNone

theorem isUnruled_iff {c : Char} :
    isUnruled c = true ↔ isBlank c = false ∧ ¬ Letter c ∧ ¬ Digit c ∧
      Kind.punctuation? c = none ∧ Operator.ofChar? c = none := by
  simp [isUnruled, letter_iff, digit_iff, and_assoc]

/-- What extends an operator is an operator itself. -/
theorem Operator.exists_of_extension {c : Char} {op : Operator} (h : ofChar? c = some op) :
    ∃ op', ofChar? op.extension = some op' := by
  unfold ofChar? at h
  split at h <;> cases h <;> exact ⟨_, rfl⟩

namespace Kind

variable {k k' : Kind} {text : List Char} {c : Char}

/-- The characters of a spelling are punctuation or operators. -/
theorem ruled_of_mem_spelling (hs : k.spelling? = some (String.ofList text)) (hc : c ∈ text) :
    (punctuation? c = some k ∧ text = [c]) ∨ ∃ op, Operator.ofChar? c = some op := by
  rcases spelling?_cases hs with ⟨d, rfl, hd⟩ | ⟨d, op, hop, ⟨rfl, -⟩ | ⟨rfl, -⟩⟩
  · obtain rfl := List.mem_singleton.mp hc
    exact .inl ⟨hd, rfl⟩
  · obtain rfl := List.mem_singleton.mp hc
    exact .inr ⟨op, hop⟩
  · rcases List.mem_cons.mp hc with rfl | hc
    · exact .inr ⟨op, hop⟩
    · obtain rfl := List.mem_singleton.mp hc
      exact .inr (Operator.exists_of_extension hop)

/-- A character without a rule is in no lexeme but its own. -/
theorem Matches.of_mem_unruled (hm : k'.Matches text) (hmem : c ∈ text) (hc : isUnruled c = true) :
    k' = .char ∧ text = [c] := by
  obtain ⟨-, hletter, hdigit, hpunctuation, hoperator⟩ := isUnruled_iff.mp hc
  have hpart : ¬ WordPart c := by
    rintro (h | h | rfl)
    · exact hletter h
    · exact hdigit h
    · cases hpunctuation
  cases hm with
  | word hl hcs =>
    rcases List.mem_cons.mp hmem with rfl | hmem
    · exact absurd hl hletter
    · exact absurd (hcs c hmem) hpart
  | whole _ hds => exact absurd (hds c hmem) hdigit
  | decimal _ hds hfs =>
    rcases List.mem_append.mp hmem with hmem | hmem
    · exact absurd (hds c hmem) hdigit
    · rcases List.mem_cons.mp hmem with rfl | hmem
      · cases hpunctuation
      · exact absurd (hfs c hmem) hdigit
  | spelled hs =>
    rcases ruled_of_mem_spelling hs hmem with ⟨h, -⟩ | ⟨op, h⟩
    · cases hpunctuation.symm.trans h
    · cases hoperator.symm.trans h
  | char =>
    obtain rfl := List.mem_singleton.mp hmem
    exact ⟨rfl, rfl⟩

/-- Punctuation is a lexeme of its own, or a point in a number, or an underscore in a word. -/
theorem Matches.of_mem_punctuation (hm : k'.Matches text) (hmem : c ∈ text)
    (hc : punctuation? c = some k) :
    (k' = k ∧ text = [c]) ∨ (k' = .number ∧ c = '.') ∨ (k' = .word ∧ c = '_') := by
  have hsymbolic := Symbolic.of_punctuation? hc
  have hletter : ¬ Letter c := by simp [letter_iff, hsymbolic.not_letter]
  have hdigit : ¬ Digit c := by simp [digit_iff, hsymbolic.not_digit]
  cases hm with
  | word hl hcs =>
    rcases List.mem_cons.mp hmem with rfl | hmem
    · exact absurd hl hletter
    · rcases hcs c hmem with h | h | h
      · exact absurd h hletter
      · exact absurd h hdigit
      · exact .inr (.inr ⟨rfl, h⟩)
  | whole _ hds => exact absurd (hds c hmem) hdigit
  | decimal _ hds hfs =>
    rcases List.mem_append.mp hmem with hmem | hmem
    · exact absurd (hds c hmem) hdigit
    · rcases List.mem_cons.mp hmem with h | hmem
      · exact .inr (.inl ⟨rfl, h⟩)
      · exact absurd (hfs c hmem) hdigit
  | spelled hs =>
    rcases ruled_of_mem_spelling hs hmem with ⟨h, htext⟩ | ⟨op, h⟩
    · exact .inl ⟨Option.some.inj (h.symm.trans hc), htext⟩
    · cases (Operator.punctuation?_eq_none h).symm.trans hc
  | char _ _ _ hk =>
    obtain rfl := List.mem_singleton.mp hmem
    cases hk.symm.trans hc

/-- The characters that a predicate tells are the lexemes of a kind, and are in no other lexeme. -/
structure StandsAlone (p : Char → Bool) (k : Kind) : Prop where
  matches_iff : ∀ {text}, k.Matches text ↔ ∃ c, text = [c] ∧ p c = true
  of_mem : ∀ {k' text c}, k'.Matches text → c ∈ text → p c = true → k' = k ∧ text = [c]

theorem standsAlone_unruled : StandsAlone isUnruled .char where
  matches_iff := by
    intro text
    constructor
    · intro hm
      cases hm with
      | spelled hs => cases hs
      | char hb hl hd hk hop => exact ⟨_, rfl, isUnruled_iff.mpr ⟨hb, hl, hd, hk, hop⟩⟩
    · rintro ⟨c, rfl, hc⟩
      obtain ⟨hb, hl, hd, hk, hop⟩ := isUnruled_iff.mp hc
      exact .char hb hl hd hk hop
  of_mem := Matches.of_mem_unruled

theorem standsAlone_punctuation (hc : punctuation? c = some k) (hpoint : c ≠ '.')
    (hunderscore : c ≠ '_') : StandsAlone (· = c) k where
  matches_iff := by
    intro text
    have hspelling := spelling?_of_punctuation? hc
    constructor
    · intro hm
      refine ⟨c, ?_, decide_eq_true rfl⟩
      cases hm with
      | spelled hs => exact String.ofList_inj.mp (Option.some.inj (hs.symm.trans hspelling))
      | word | whole | decimal | char => cases hspelling
    · rintro ⟨d, rfl, hd⟩
      rw [of_decide_eq_true hd]
      exact .spelled hspelling
  of_mem := by
    intro k' text d hm hmem hd
    obtain rfl := of_decide_eq_true hd
    rcases hm.of_mem_punctuation hmem hc with h | ⟨-, h⟩ | ⟨-, h⟩
    · exact h
    · exact absurd h hpoint
    · exact absurd h hunderscore

end Kind

/-! ## From the source to its lexemes -/

namespace Lexeme

variable {l : Lexeme} {ls : List Lexeme} {s : String} {p : Char → Bool} {k : Kind}

/-- The lexeme of a kind that is one character of the source. -/
def ofCharacter (k : Kind) (o : Char × Nat) : Lexeme :=
  ⟨⟨k, String.ofList [o.1]⟩, o.2⟩

theorem wellFormed_of_mem_ofSource (h : l ∈ ofSource s) : l.token.WellFormed :=
  wellFormed_of_mem_tokenize (List.mem_map_of_mem h)

/-- The characters of a lexeme that stand alone: the lexeme, or none. -/
theorem map_filter_characters (hp : k.StandsAlone p) (hl : l.token.WellFormed) :
    (l.characters.filter (fun o ↦ p o.1)).map (ofCharacter k) =
      if l.token.kind = k then [l] else [] := by
  have hm : l.token.kind.Matches l.token.value.toList := hl
  obtain ⟨⟨kind, value⟩, start⟩ := l
  rw [characters]
  dsimp only at hm ⊢
  split
  · next hkind =>
    subst hkind
    obtain ⟨c, hc, hpc⟩ := hp.matches_iff.mp hm
    obtain rfl : value = String.ofList [c] := by rw [← hc, String.ofList_toList]
    simp [placed, hpc, ofCharacter]
  · next hkind =>
    rw [filter_placed_eq_nil, List.map_nil]
    intro c hc
    rw [← Bool.not_eq_true]
    intro hpc
    exact hkind (hp.of_mem hm hc hpc).1

theorem map_filter_flatMap_characters (hp : k.StandsAlone p)
    (hls : ∀ l ∈ ls, l.token.WellFormed) :
    ((ls.flatMap characters).filter (fun o ↦ p o.1)).map (ofCharacter k) =
      ls.filter (fun l ↦ l.token.kind = k) := by
  induction ls with
  | nil => rfl
  | cons l ls ih =>
    rw [List.flatMap_cons, List.filter_append, List.map_append,
      map_filter_characters hp (hls l List.mem_cons_self),
      ih fun l' hl' ↦ hls l' (List.mem_cons_of_mem l hl'), List.filter_cons]
    split <;> simp_all

/-- The lexemes of a kind that stands alone are its characters in the source, one for one. -/
theorem filter_ofSource (hp : k.StandsAlone p) (s : String) :
    (ofSource s).filter (fun l ↦ l.token.kind = k) =
      ((RubyLex.characters s).filter (fun o ↦ p o.1)).map (ofCharacter k) := by
  -- a blank is in no lexeme, so that it makes no difference to leave the blanks out first
  have hblank : ∀ o : Char × Nat, p o.1 = (p o.1 && !isBlank o.1) := by
    intro o
    cases ho : p o.1 with
    | false => rfl
    | true =>
      have hm := hp.matches_iff.mpr ⟨o.1, rfl, ho⟩
      simp [hm.not_blank o.1 (List.mem_singleton_self o.1)]
  have hsplit : (RubyLex.characters s).filter (fun o ↦ p o.1) =
      ((ofSource s).flatMap characters).filter (fun o ↦ p o.1) := by
    rw [ofSource, ← filter_placed_list, List.filter_filter]
    exact List.filter_congr fun o _ ↦ hblank o
  rw [hsplit]
  exact (map_filter_flatMap_characters hp fun l hl ↦ wellFormed_of_mem_ofSource hl).symm

/-- What is reported while a source is cut are its characters without a rule, at their offsets. -/
theorem filterMap_unmatched? (s : String) :
    (ofSource s).filterMap unmatched? =
      (RubyLex.characters s).filter (fun o ↦ isUnruled o.1) := by
  have hchar : (ofSource s).filterMap unmatched? =
      ((ofSource s).filter (fun l ↦ l.token.kind = .char)).filterMap unmatched? := by
    rw [List.filterMap_filter]
    refine List.filterMap_congr fun l _ ↦ ?_
    by_cases hl : l.token.kind = .char
    · simp [hl]
    · simp [unmatched?, hl]
  have hone (o : Char × Nat) : unmatched? (ofCharacter .char o) = some o := by
    simp [unmatched?, ofCharacter]
  rw [hchar, filter_ofSource Kind.standsAlone_unruled, List.filterMap_map]
  simp [hone]

/-- Lexemes one after the other have no character in common. -/
theorem not_mem_characters_of_stop_le {a b : Lexeme} {o : Char × Nat} (h : a.span.stop ≤ b.start)
    (ha : o ∈ a.characters) : o ∉ b.characters := by
  intro hb
  have hstop : a.span.stop = a.start + width a.token.value.toList := by
    rw [← utf8ByteSize_ofList, String.ofList_toList]
    rfl
  have hlast := (bounds_of_mem_placed ha).2
  have hfirst := (bounds_of_mem_placed hb).1
  omega

/-- A character that is no blank is in exactly one lexeme. -/
theorem exists_filter_characters {o : Char × Nat} (ho : o ∈ RubyLex.characters s)
    (hblank : isBlank o.1 = false) :
    ∃ l, (ofSource s).filter (fun l ↦ o ∈ l.characters) = [l] ∧ l.token.WellFormed ∧
      o ∈ l.characters := by
  have hmem : o ∈ (RubyLex.characters s).filter (fun o ↦ !isBlank o.1) :=
    List.mem_filter.mpr ⟨ho, by simp [hblank]⟩
  rw [RubyLex.characters, filter_placed_list, List.mem_flatMap] at hmem
  obtain ⟨l, hl, hol⟩ := hmem
  have hin : l ∈ (ofSource s).filter (fun l ↦ o ∈ l.characters) :=
    List.mem_filter.mpr ⟨hl, decide_eq_true hol⟩
  have hapart : ((ofSource s).filter (fun l ↦ o ∈ l.characters)).Pairwise
      fun a b ↦ a.span.stop ≤ b.start :=
    (List.pairwise_map.mp (pairwise_span_list s.toList 0)).filter _
  refine ⟨l, ?_, wellFormed_of_mem_ofSource hl, hol⟩
  rcases hls : (ofSource s).filter (fun l ↦ o ∈ l.characters) with _ | ⟨a, _ | ⟨b, ls⟩⟩
  · rw [hls] at hin
    cases hin
  · rw [hls, List.mem_singleton] at hin
    rw [hls, hin]
  -- of two lexemes that hold it, the second starts where the first has ended
  · have hold : ∀ l' ∈ a :: b :: ls, o ∈ l'.characters := by
      rw [← hls]
      exact fun l' hl' ↦ of_decide_eq_true (List.mem_filter.mp hl').2
    rw [hls] at hapart
    have hab := (List.pairwise_cons.mp hapart).1 b List.mem_cons_self
    exact absurd (hold b (by simp)) (not_mem_characters_of_stop_le hab (hold a (by simp)))

/-- Punctuation is in exactly one lexeme: its own, or a number if it is a point, or a word if it is
an underscore. -/
theorem exists_filter_punctuation {c : Char} {n : Nat} (hc : Kind.punctuation? c = some k)
    (ho : (c, n) ∈ RubyLex.characters s) :
    ∃ l, (ofSource s).filter (fun l ↦ (c, n) ∈ l.characters) = [l] ∧
      (l = ofCharacter k (c, n) ∨ (l.token.kind = .number ∧ c = '.') ∨
        (l.token.kind = .word ∧ c = '_')) := by
  obtain ⟨l, hl, hm, hin⟩ := exists_filter_characters ho (Symbolic.of_punctuation? hc).not_blank
  refine ⟨l, hl, ?_⟩
  obtain ⟨⟨kind, value⟩, start⟩ := l
  rw [characters] at hin
  rcases Kind.Matches.of_mem_punctuation hm (mem_of_mem_placed hin) hc with ⟨hkind, hvalue⟩ | h | h
  · dsimp only at hkind hvalue hin
    rw [hvalue, placed, placed, List.mem_singleton] at hin
    obtain ⟨-, rfl⟩ := Prod.mk.inj hin
    rw [ofCharacter, hkind, ← hvalue, String.ofList_toList]
    exact .inl rfl
  · exact .inr (.inl h)
  · exact .inr (.inr h)

end Lexeme

theorem Command.Tokenize.filter_trace_events (name s : String) :
    (events ⟨name, s⟩).filter (fun e ↦ e.level = .trace) =
      ((characters s).filter (fun o ↦ isUnruled o.1)).map (fun o ↦ .unmatched o.1 o.2) := by
  rw [events, Lexeme.filterMap_unmatched?, List.filter_append, List.filter_eq_self.mpr]
  · simp [Log.Event.level]
  · intro e he
    obtain ⟨o, -, rfl⟩ := List.mem_map.mp he
    rfl

/-- Characters without a rule, and punctuation that can only stand alone, are tokens one for one and
in order, each at its own offset; and what is reported while a source is cut are the first of these.
A point or an underscore is in exactly one token, which is its own, or a number or a word. -/
theorem lone_characters_conserved (s : String) :
    ∃ ls, (Lexer.ofSource s).toList = .ok ls ∧ ls.map Lexeme.token = tokenize s ∧
      ls.filter (fun l ↦ l.token.kind = .char) =
        ((characters s).filter (fun o ↦ isUnruled o.1)).map (Lexeme.ofCharacter .char) ∧
      (∀ name, (Command.Tokenize.events ⟨name, s⟩).filter (fun e ↦ e.level = .trace) =
        ((characters s).filter (fun o ↦ isUnruled o.1)).map (fun o ↦ .unmatched o.1 o.2)) ∧
      (∀ c k, Kind.punctuation? c = some k → c ≠ '.' → c ≠ '_' →
        ls.filter (fun l ↦ l.token.kind = k) =
          ((characters s).filter (fun o ↦ o.1 = c)).map (Lexeme.ofCharacter k)) ∧
      (∀ n, ('.', n) ∈ characters s →
        ∃ l, ls.filter (fun l ↦ ('.', n) ∈ l.characters) = [l] ∧
          (l = Lexeme.ofCharacter .dot ('.', n) ∨ l.token.kind = .number)) ∧
      ∀ n, ('_', n) ∈ characters s →
        ∃ l, ls.filter (fun l ↦ ('_', n) ∈ l.characters) = [l] ∧
          (l = Lexeme.ofCharacter .underscore ('_', n) ∨ l.token.kind = .word) := by
  refine ⟨Lexeme.ofSource s, Lexer.toList_ofSource s, rfl,
    Lexeme.filter_ofSource Kind.standsAlone_unruled s,
    fun name ↦ Command.Tokenize.filter_trace_events name s, ?_, ?_, ?_⟩
  · intro c k hc hpoint hunderscore
    exact Lexeme.filter_ofSource (Kind.standsAlone_punctuation hc hpoint hunderscore) s
  · intro n hn
    obtain ⟨l, hl, h | ⟨h, -⟩ | ⟨-, h⟩⟩ := Lexeme.exists_filter_punctuation rfl hn
    · exact ⟨l, hl, .inl h⟩
    · exact ⟨l, hl, .inr h⟩
    · cases h
  · intro n hn
    obtain ⟨l, hl, h | ⟨-, h⟩ | ⟨h, -⟩⟩ := Lexeme.exists_filter_punctuation rfl hn
    · exact ⟨l, hl, .inl h⟩
    · cases h
    · exact ⟨l, hl, .inr h⟩

/-- A point in a number and one behind it, an underscore before a word and one in it. -/
theorem lone_characters_conserved_mixed :
    ∃ ls, (Lexer.ofSource "1.5._a_(λ").toList = .ok ls ∧
      ls.filter (fun l ↦ l.token.kind = .char) = [⟨⟨.char, "λ"⟩, 8⟩] ∧
      ls.filter (fun l ↦ l.token.kind = .leftParen) = [⟨⟨.leftParen, "("⟩, 7⟩] ∧
      (∃ l, ls.filter (fun l ↦ ('.', 3) ∈ l.characters) = [l] ∧
        (l = ⟨⟨.dot, "."⟩, 3⟩ ∨ l.token.kind = .number)) ∧
      ∃ l, ls.filter (fun l ↦ ('_', 6) ∈ l.characters) = [l] ∧
        (l = ⟨⟨.underscore, "_"⟩, 6⟩ ∨ l.token.kind = .word) := by
  obtain ⟨ls, hls, -, hchar, -, hpunctuation, hpoint, hunderscore⟩ :=
    lone_characters_conserved "1.5._a_(λ"
  refine ⟨ls, hls, ?_, ?_, hpoint 3 (by decide), hunderscore 6 (by decide)⟩
  · rw [hchar]
    decide
  · rw [hpunctuation '(' .leftParen rfl (by decide) (by decide)]
    decide

end RubyLex

import RubyLex.Proofs.LongestMatch
import RubyLex.Proofs.TomlStrings
import RubyLex.Toml.Reader

/-!
# Reading TOML lines back

Lines that set a bare key or open a table are read as the statements they stand for, whatever lines
follow (`statements?_assign`, `statements?_openTable`).  A line that sets a key is read if its value
is, and the values here are truth values, strings in any style, and whole numbers in decimal
digits.  Digits could start a date, a time or a number with a point as well, but none of them ends
with a line.
-/

namespace RubyLex.Toml

variable {name value text rest : List Char} {c : Char} {n depth bound : Nat} {node : Node}

/-! ## Whole numbers -/

/-- Digits and the end of a line. -/
def DigitLine (text rest : List Char) : Prop :=
  ∃ ds, (∀ d ∈ ds, d.isDigit = true) ∧ text = ds ++ '\n' :: rest

theorem digitLine_append {ds : List Char} (hds : ∀ d ∈ ds, d.isDigit = true) (rest : List Char) :
    DigitLine (ds ++ '\n' :: rest) rest :=
  ⟨ds, hds, rfl⟩

/-- What stands first in such a line is a digit or its end. -/
theorem DigitLine.after? (h : DigitLine text rest) (hc : c.isDigit = false) (hn : c ≠ '\n') :
    after? c text = none := by
  obtain ⟨ds, hds, rfl⟩ := h
  cases ds with
  | nil => exact if_neg (Ne.symm hn)
  | cons d ds =>
    refine if_neg ?_
    rintro rfl
    simp [hds d List.mem_cons_self] at hc

/-- A number of some digits is read within the digits of the line. -/
theorem DigitLine.of_fixed? {k v : Nat} {after : List Char} (h : DigitLine text rest)
    (hread : fixed? k text = some (v, after)) : DigitLine after rest := by
  obtain ⟨ds, hds, rfl⟩ := h
  simp only [fixed?] at hread
  split at hread
  · next hfixed =>
    obtain ⟨-, rfl⟩ := Prod.mk.inj (Option.some.inj hread)
    have hk : k ≤ ds.length := by
      by_contra hk
      have hend : '\n' ∈ (ds ++ '\n' :: rest).take k := by
        rw [List.take_append, List.mem_append]
        right
        obtain ⟨m, hm⟩ : ∃ m, k - ds.length = m + 1 := ⟨k - ds.length - 1, by omega⟩
        rw [hm, List.take_succ_cons]
        exact List.mem_cons_self
      simpa using List.all_eq_true.1 hfixed.2 _ hend
    rw [List.drop_append_of_le_length hk]
    exact digitLine_append (fun d hd ↦ hds d (List.mem_of_mem_drop hd)) rest
  · cases hread

/-- A date has a dash after its year, and a time has a colon after its hour. -/
theorem DigitLine.moment? (h : DigitLine text rest) : moment? text = none := by
  have hdate : date? text = none := by
    unfold date?
    cases hyear : fixed? 4 text with
    | none => rfl
    | some year =>
      have hdash := (h.of_fixed? hyear).after? (c := '-') rfl (by decide)
      simp [hdash]
  have htime : time? text = none := by
    unfold time?
    cases hhour : fixed? 2 text with
    | none => rfl
    | some hour =>
      have hcolon := (h.of_fixed? hhour).after? (c := ':') rfl (by decide)
      simp [hcolon]
  simp [Toml.moment?, hdate, htime]

theorem moreDigits_append {ds : List Char} (hds : ∀ d ∈ ds, d.isDigit = true) (rest : List Char) :
    moreDigits Char.isDigit (ds ++ '\n' :: rest) = (ds, '\n' :: rest) := by
  induction ds with
  | nil => rfl
  | cons d ds ih =>
    have hd := hds d List.mem_cons_self
    have ih := ih fun e he ↦ hds e (List.mem_cons_of_mem d he)
    rw [List.cons_append, moreDigits]
    · simp only [hd, if_true, ih]
    · rintro e after rfl
      cases hd

/-- A number other than zero is not written with a zero in front. -/
theorem head?_toDigits (hn : n ≠ 0) : (Nat.toDigits 10 n).head? ≠ some '0' := by
  induction n using Nat.strongRecOn with
  | ind n ih =>
    by_cases hsmall : n < 10
    · simpa [Nat.toDigits_of_lt_base hsmall] using hn
    · rw [Nat.toDigits_of_base_le (by decide) (by omega),
        List.head?_append_of_ne_nil _ Nat.toDigits_ne_nil]
      exact ih (n / 10) (by omega) (by omega)

theorem isDigit_toDigits (n : Nat) : ∀ d ∈ Nat.toDigits 10 n, d.isDigit = true :=
  fun _ hd ↦ Nat.isDigit_of_mem_toDigits (by decide) (by decide) hd

theorem toDigits_eq_cons (n : Nat) : ∃ d ds, Nat.toDigits 10 n = d :: ds ∧ d.isDigit = true ∧
    ∀ e ∈ ds, e.isDigit = true := by
  have hdigits := isDigit_toDigits n
  obtain ⟨d, ds, hds⟩ := List.exists_cons_of_ne_nil (Nat.toDigits_ne_nil (n := n) (b := 10))
  rw [hds] at hdigits
  exact ⟨d, ds, hds, List.forall_mem_cons.1 hdigits⟩

theorem decimal?_toDigits (n : Nat) (rest : List Char) :
    decimal? (Nat.toDigits 10 n ++ '\n' :: rest) = some (Nat.toDigits 10 n, '\n' :: rest) := by
  by_cases hn : n = 0
  · subst hn
    rfl
  · have hhead := head?_toDigits hn
    obtain ⟨d, ds, hcons, hd, hds⟩ := toDigits_eq_cons n
    rw [hcons] at hhead ⊢
    rw [List.cons_append, decimal?]
    · simp only [digits?, hd, if_true, moreDigits_append hds]
    · intro after h
      rw [(List.cons.inj h).1] at hhead
      exact hhead rfl

theorem hexValue?_of_isDigit (hc : c.isDigit = true) :
    hexValue? c = some (c.toNat - '0'.toNat) := by
  have hbounds : '0' ≤ c ∧ c ≤ '9' := by
    simpa [Char.isDigit, Char.le_def] using hc
  exact if_pos hbounds

theorem ofDigits_toDigits (n : Nat) : ofDigits 10 (Nat.toDigits 10 n) = n := by
  have hfold : ofDigits 10 (Nat.toDigits 10 n) = Nat.ofDigitChars 10 (Nat.toDigits 10 n) 0 := by
    rw [ofDigits, Nat.ofDigitChars_eq_foldl]
    refine List.foldl_ext _ _ _ fun value d hd ↦ ?_
    rw [hexValue?_of_isDigit (isDigit_toDigits n d hd), Nat.mul_comm]
    rfl
  rw [hfold, Nat.ofDigitChars_ten_toDigits]

theorem sign_cons (hc : c.isDigit = true) (text : List Char) :
    sign (c :: text) = (false, c :: text) := by
  unfold sign
  split <;> simp_all

/-- The digits of a number are read as that number. -/
theorem number?_toDigits (hn : n < integerBound) (rest : List Char) :
    number? (Nat.toDigits 10 n ++ '\n' :: rest) = some (.integer n, '\n' :: rest) := by
  have hmoment := (digitLine_append (isDigit_toDigits n) rest).moment?
  have hdecimal := decimal?_toDigits n rest
  have hvalue := ofDigits_toDigits n
  obtain ⟨d, ds, hcons, hd, hds⟩ := toDigits_eq_cons n
  rw [hcons] at hmoment hdecimal hvalue ⊢
  rw [List.cons_append] at hmoment hdecimal ⊢
  have hsign := sign_cons hd (ds ++ '\n' :: rest)
  -- a point or an exponent would have to stand where the line ends
  have hfloat : float? (d :: (ds ++ '\n' :: rest)) = none := by
    simp only [float?, hsign]
    split
    · next h => simp [(List.cons.inj h).1] at hd
    · next h => simp [(List.cons.inj h).1] at hd
    · simp [hdecimal, fraction?]
  -- a letter for a base would have to stand where a digit or the end of the line does
  have hmark {m : Char} {after : List Char} (hm : m.isDigit = false) (hend : m ≠ '\n') :
      ds ++ '\n' :: rest ≠ m :: after := by
    intro h
    simpa [h, Toml.after?] using (digitLine_append hds rest).after? hm hend
  have hinteger : integer? (d :: (ds ++ '\n' :: rest)) = some (.integer n, '\n' :: rest) := by
    unfold integer?
    split
    · next h => exact absurd (List.cons.inj h).2 (hmark rfl (by decide))
    · next h => exact absurd (List.cons.inj h).2 (hmark rfl (by decide))
    · next h => exact absurd (List.cons.inj h).2 (hmark rfl (by decide))
    · simp [hsign, hdecimal, hvalue, hn]
  simp [number?, hmoment, hfloat, hinteger]

/-! ## Values -/

/-- A text that is read as a value wherever it ends a line. -/
structure ReadsAs (value : List Char) (node : Node) : Prop where
  /-- No blank stands in front. -/
  head : ∃ c cs, value = c :: cs ∧ isSpace c = false
  value? : ∀ depth rest, value? depth (value ++ '\n' :: rest) = some (node, '\n' :: rest)

theorem value?_mark (hc : c = '"' ∨ c = '\x27') (depth : Nat) (text : List Char) :
    value? depth (c :: text) =
      (string? (c :: text)).map fun (text, rest) ↦ (.string (String.ofList text), rest) := by
  cases depth <;> exact if_pos hc

theorem value?_word (hmark : ¬ (c = '"' ∨ c = '\x27')) (hbracket : c ≠ '[') (hbrace : c ≠ '\x7b')
    (depth : Nat) (text : List Char) :
    value? depth (c :: text) = (boolean? (c :: text) <|> number? (c :: text)) := by
  cases depth <;> rw [Toml.value?, if_neg hmark, if_neg hbracket, if_neg hbrace]

theorem readsAs_boolean (b : Bool) :
    ReadsAs (if b then "true" else "false").toList (.boolean b) := by
  cases b with
  | false =>
    exact ⟨⟨_, _, rfl, rfl⟩, fun _ _ ↦ value?_word (by decide) (by decide) (by decide) ..⟩
  | true =>
    exact ⟨⟨_, _, rfl, rfl⟩, fun _ _ ↦ value?_word (by decide) (by decide) (by decide) ..⟩

theorem readsAs_integer (hn : n < integerBound) : ReadsAs (Nat.toDigits 10 n) (.integer n) := by
  have hnumber := number?_toDigits hn
  obtain ⟨d, ds, hcons, hd, -⟩ := toDigits_eq_cons n
  rw [hcons] at hnumber ⊢
  have hne {m : Char} (hm : m.isDigit = false) : d ≠ m := by
    rintro rfl
    simp [hd] at hm
  refine ⟨⟨d, ds, rfl, by simp [isSpace, hne (m := ' ') rfl, hne (m := '\t') rfl]⟩, ?_⟩
  intro depth rest
  have hboolean : boolean? (d :: (ds ++ '\n' :: rest)) = none := by
    unfold boolean?
    split
    · next h => exact absurd (List.cons.inj h).1 (hne rfl)
    · next h => exact absurd (List.cons.inj h).1 (hne rfl)
    · rfl
  specialize hnumber rest
  rw [List.cons_append] at hnumber ⊢
  rw [value?_word (not_or.2 ⟨hne rfl, hne rfl⟩) (hne rfl) (hne rfl), hboolean, hnumber]
  rfl

theorem readsAs_string (s : String) : ReadsAs (writeString s).toList (.string s) := by
  have hstring := string?_write s.toList
  rw [writeString, String.toList_ofList]
  -- every style opens with a mark
  obtain ⟨c, cs, hwrite, hmark⟩ : ∃ c cs, (Style.ofText s.toList).write s.toList = c :: cs ∧
      (c = '"' ∨ c = '\x27') := by
    cases Style.ofText s.toList with
    | basic => exact ⟨_, _, rfl, .inl rfl⟩
    | literal => exact ⟨_, _, rfl, .inr rfl⟩
    | basicLines => exact ⟨_, _, rfl, .inl rfl⟩
    | literalLines => exact ⟨_, _, rfl, .inr rfl⟩
  rw [hwrite] at hstring ⊢
  refine ⟨⟨c, cs, rfl, by obtain rfl | rfl := hmark <;> rfl⟩, ?_⟩
  intro depth rest
  specialize hstring rest
  rw [List.cons_append] at hstring ⊢
  simp [value?_mark hmark, hstring]

/-! ## Lines -/

/-- The characters of a key that needs no marks. -/
structure Bare (name : List Char) : Prop where
  ne_nil : name ≠ []
  all : name.all isBare = true

theorem Bare.mem (hname : Bare name) (hc : c ∈ name) : isBare c = true :=
  List.all_eq_true.1 hname.all c hc

theorem skipSpaces_cons (hc : isSpace c = false) (text : List Char) :
    skipSpaces (c :: text) = c :: text :=
  List.dropWhile_cons_of_neg (by simp [hc])

/-- No other character stands first in such a key. -/
theorem Bare.append_ne (hname : Bare name) (hc : isBare c = false) (text rest : List Char) :
    name ++ text ≠ c :: rest := by
  obtain ⟨d, ds, rfl⟩ := List.exists_cons_of_ne_nil hname.ne_nil
  intro h
  have hd := hname.mem List.mem_cons_self
  rw [(List.cons.inj h).1, hc] at hd
  cases hd

theorem keyPart?_bare (hname : Bare name) (hc : isBare c = false) (rest : List Char) :
    keyPart? (name ++ c :: rest) = some (String.ofList name, c :: rest) := by
  have htake : (name ++ c :: rest).takeWhile isBare = name := by
    rw [List.takeWhile_append_of_pos fun _ ↦ hname.mem, List.takeWhile_cons_of_neg (by simp [hc]),
      List.append_nil]
  have hdrop : (name ++ c :: rest).dropWhile isBare = c :: rest := by
    rw [List.dropWhile_append_of_pos fun _ ↦ hname.mem, List.dropWhile_cons_of_neg (by simp [hc])]
  unfold keyPart?
  split
  · next h => exact absurd h (hname.append_ne rfl _ _)
  · next h => exact absurd h (hname.append_ne rfl _ _)
  · simp only [htake, hdrop, hname.ne_nil, if_false]

/-- A key is read up to the character that ends it, and the blanks from there on are skipped. -/
theorem key?_bare (hname : Bare name) (hc : isBare c = false) (rest : List Char)
    (hdot : ∀ after, skipSpaces (c :: rest) ≠ '.' :: after) :
    key? (name ++ c :: rest) = some (([], String.ofList name), skipSpaces (c :: rest)) := by
  have hspaces : skipSpaces (name ++ c :: rest) = name ++ c :: rest := by
    rcases hskip : name ++ c :: rest with _ | ⟨d, text⟩
    · rfl
    · refine skipSpaces_cons ?_ text
      by_contra hd
      rw [isSpace, Bool.not_eq_false, Bool.or_eq_true, beq_iff_eq, beq_iff_eq] at hd
      obtain rfl | rfl := hd <;> exact hname.append_ne rfl _ _ hskip
  have hparts : keyParts? (nestingLimit - 1) (name ++ c :: rest) =
      some ([String.ofList name], skipSpaces (c :: rest)) := by
    rw [nestingLimit, keyParts?, hspaces, keyPart?_bare hname hc]
    -- what stands there is no point, so the key has no more parts
    simp
  simp [key?, hparts]

theorem statements?_blank (bound : Nat) (rest : List Char) :
    statements? (bound + 1) ('\n' :: rest) = statements? bound rest :=
  rfl

/-- A line that starts with a key or a bracket is read as the statement it holds. -/
theorem statements?_line {statement : Statement} (hc : isBare c = true ∨ c = '[')
    (hread : statement? (c :: text) = some (statement, '\n' :: rest)) (bound : Nat) :
    statements? (bound + 1) (c :: text) = (statements? bound rest).map (statement :: ·) := by
  have hne {m : Char} (hm : isBare m = false) (hb : m ≠ '[') : c ≠ m := by
    rintro rfl
    exact hc.elim (by simp [hm]) hb
  have hspaces (text : List Char) : skipSpaces (c :: text) = c :: text :=
    skipSpaces_cons (by simp [isSpace, hne (m := ' ') rfl, hne (m := '\t') rfl]) text
  have hend : lineEnd? (c :: text) = none := by
    simp [lineEnd?, hspaces, hne (m := '#') rfl,
      lineBreak?_cons (c := c) (hne rfl (by decide)) (hne rfl (by decide))]
  have hbreak : lineEnd? ('\n' :: rest) = some rest := rfl
  rw [statements?, if_neg (List.cons_ne_nil _ _), hend, hspaces, hread]
  cases hrest : statements? bound rest <;> simp [hbreak, hrest]

theorem statements?_assign (hname : Bare name) (hvalue : ReadsAs value node) (bound : Nat)
    (rest : List Char) :
    statements? (bound + 1) (name ++ ' ' :: '=' :: ' ' :: (value ++ '\n' :: rest)) =
      (statements? bound rest).map (.assign [] (String.ofList name) node :: ·) := by
  have hkey := key?_bare (c := ' ') hname rfl ('=' :: ' ' :: (value ++ '\n' :: rest))
    fun after h ↦ by cases h
  have hsign : after? '=' (skipSpaces (' ' :: '=' :: ' ' :: (value ++ '\n' :: rest))) =
      some (' ' :: (value ++ '\n' :: rest)) := rfl
  have hspaces : skipSpaces (' ' :: (value ++ '\n' :: rest)) = value ++ '\n' :: rest := by
    obtain ⟨c, cs, rfl, hc⟩ := hvalue.head
    exact skipSpaces_cons hc _
  have hpair : pair? (value? (nestingLimit - 1))
      (name ++ ' ' :: '=' :: ' ' :: (value ++ '\n' :: rest)) =
        some (([], String.ofList name, node), '\n' :: rest) := by
    simp [pair?, hkey, hsign, hspaces, hvalue.value?]
  have hread : statement? (name ++ ' ' :: '=' :: ' ' :: (value ++ '\n' :: rest)) =
      some (.assign [] (String.ofList name) node, '\n' :: rest) := by
    unfold statement?
    split
    · next h => exact absurd h (hname.append_ne rfl _ _)
    · next h => exact absurd h (hname.append_ne rfl _ _)
    · simp [hpair]
  obtain ⟨d, ds, rfl⟩ := List.exists_cons_of_ne_nil hname.ne_nil
  exact statements?_line (.inl (hname.mem List.mem_cons_self)) hread bound

theorem statements?_openTable (hname : Bare name) (bound : Nat) (rest : List Char) :
    statements? (bound + 1) ('[' :: (name ++ ']' :: '\n' :: rest)) =
      (statements? bound rest).map (.openTable [] (String.ofList name) :: ·) := by
  have hkey := key?_bare (c := ']') hname rfl ('\n' :: rest) fun after h ↦ by cases h
  have hheader : header? 1 (name ++ ']' :: '\n' :: rest) =
      some (([], String.ofList name), '\n' :: rest) := by
    rw [header?, hkey]
    rfl
  have hread : statement? ('[' :: (name ++ ']' :: '\n' :: rest)) =
      some (.openTable [] (String.ofList name), '\n' :: rest) := by
    rw [statement?, hheader]
    · rfl
    · exact fun after ↦ hname.append_ne rfl _ after
  exact statements?_line (.inr rfl) hread bound

end RubyLex.Toml

import RubyLex.Proofs.LongestMatch
import RubyLex.Toml.Quoted

/-!
# The grammar of JSON

The grammar as a relation between a text, what it starts with, and the text after that.  Blanks may
stand around every value and every mark; a string may have any of the escapes; a number is kept as
it is written.  The grammar is not greedy, but it is not ambiguous either: a text that is a document
is one document (`Document.unique`).  What this takes is that the text after a value cannot be read
as more of a number (`Ends`).
-/

namespace RubyLex.JsonText

/-- What a JSON document says. -/
inductive Value where
  | null
  | boolean (b : Bool)
  | number (text : List Char)
  | string (s : String)
  | array (items : List Value)
  | object (members : List (String × Value))

/-- The characters that may stand around values and marks. -/
def isSpace (c : Char) : Bool :=
  c == ' ' || c == '\t' || c == '\n' || c == '\r'

/-- A text that starts with blanks, and the text after some of them. -/
inductive Skips : List Char → List Char → Prop
  | nil (rest : List Char) : Skips rest rest
  | cons {c : Char} {text rest : List Char} : isSpace c → Skips text rest →
    Skips (c :: text) rest

/-! ### Strings -/

/-- The characters that stand for themselves in a string. -/
def isPlain (c : Char) : Bool :=
  0x20 ≤ c.toNat && c ≠ '"' && c ≠ '\\'

/-- The character that a letter after a backslash stands for. -/
def escaped? : Char → Option Char
  | '"' => some '"'
  | '\\' => some '\\'
  | '/' => some '/'
  | 'b' => some '\x08'
  | 'f' => some '\x0c'
  | 'n' => some '\n'
  | 'r' => some '\r'
  | 't' => some '\t'
  | _ => none

/-- The number of four digits in base sixteen, and the text after them. -/
def codeUnit? (text : List Char) : Option (Nat × List Char) :=
  Toml.hexNumber? 0 4 text

/-- A text that starts with the rest of a string, the characters of that rest, and the text after
the quotation mark that ends it. A character outside the first plane may be written as two code
units. -/
inductive Characters : List Char → List Char → List Char → Prop
  | close (rest : List Char) : Characters ('"' :: rest) [] rest
  | plain {c : Char} {text cs rest : List Char} : isPlain c → Characters text cs rest →
    Characters (c :: text) (c :: cs) rest
  | escape {e c : Char} {text cs rest : List Char} : escaped? e = some c →
    Characters text cs rest → Characters ('\\' :: e :: text) (c :: cs) rest
  | unit {n : Nat} {text after cs rest : List Char} : codeUnit? text = some (n, after) →
    n.isValidChar → Characters after cs rest →
    Characters ('\\' :: 'u' :: text) (Char.ofNat n :: cs) rest
  | pair {high low : Nat} {text between after cs rest : List Char} :
    codeUnit? text = some (high, '\\' :: 'u' :: between) → 0xd800 ≤ high → high < 0xdc00 →
    codeUnit? between = some (low, after) → 0xdc00 ≤ low → low < 0xe000 →
    Characters after cs rest →
    Characters ('\\' :: 'u' :: text)
      (Char.ofNat (0x10000 + (high - 0xd800) * 0x400 + (low - 0xdc00)) :: cs) rest

/-! ### Numbers -/

/-- One digit or more. -/
def Digits (ds : List Char) : Prop :=
  ds ≠ [] ∧ ∀ d ∈ ds, d.isDigit

/-- A number: a sign, digits without a zero in front of others, a fraction, and an exponent. All but
the digits may be missing. -/
structure Number (text : List Char) : Prop where
  parts : ∃ sign whole fraction exponent, text = sign ++ whole ++ fraction ++ exponent ∧
    (sign = [] ∨ sign = ['-']) ∧
    (Digits whole ∧ (whole.head? = some '0' → whole = ['0'])) ∧
    (fraction = [] ∨ ∃ ds, fraction = '.' :: ds ∧ Digits ds) ∧
    (exponent = [] ∨ ∃ e s ds, exponent = e :: s ++ ds ∧ (e = 'e' ∨ e = 'E') ∧
      (s = [] ∨ s = ['+'] ∨ s = ['-']) ∧ Digits ds)

/-! ### Values -/

/-- What is read at once: a value, or the items or members of one with the bracket that ends
them. -/
inductive Phrase where
  | value (v : Value)
  | items (vs : List Value)
  | members (ms : List (String × Value))

/-- A text that starts with a phrase, and the text after it. -/
inductive Reads : List Char → Phrase → List Char → Prop
  | null (rest : List Char) : Reads ('n' :: 'u' :: 'l' :: 'l' :: rest) (.value .null) rest
  | true (rest : List Char) :
    Reads ('t' :: 'r' :: 'u' :: 'e' :: rest) (.value (.boolean true)) rest
  | false (rest : List Char) :
    Reads ('f' :: 'a' :: 'l' :: 's' :: 'e' :: rest) (.value (.boolean false)) rest
  | number {text number rest : List Char} : Number number → text = number ++ rest →
    Reads text (.value (.number number)) rest
  | string {text cs rest : List Char} : Characters text cs rest →
    Reads ('"' :: text) (.value (.string (String.ofList cs))) rest
  | emptyArray {text rest : List Char} : Skips text (']' :: rest) →
    Reads ('[' :: text) (.value (.array [])) rest
  | array {text rest : List Char} {vs : List Value} : Reads text (.items vs) rest →
    Reads ('[' :: text) (.value (.array vs)) rest
  | emptyObject {text rest : List Char} : Skips text ('\x7d' :: rest) →
    Reads ('\x7b' :: text) (.value (.object [])) rest
  | object {text rest : List Char} {ms : List (String × Value)} : Reads text (.members ms) rest →
    Reads ('\x7b' :: text) (.value (.object ms)) rest
  | lastItem {text start after rest : List Char} {v : Value} : Skips text start →
    Reads start (.value v) after → Skips after (']' :: rest) → Reads text (.items [v]) rest
  | item {text start after next rest : List Char} {v : Value} {vs : List Value} :
    Skips text start → Reads start (.value v) after → Skips after (',' :: next) →
    Reads next (.items vs) rest → Reads text (.items (v :: vs)) rest
  | lastMember {text name colon value start after rest cs : List Char} {v : Value} :
    Skips text ('"' :: name) → Characters name cs colon → Skips colon (':' :: value) →
    Skips value start → Reads start (.value v) after → Skips after ('\x7d' :: rest) →
    Reads text (.members [(String.ofList cs, v)]) rest
  | member {text name colon value start after next rest cs : List Char} {v : Value}
    {ms : List (String × Value)} :
    Skips text ('"' :: name) → Characters name cs colon → Skips colon (':' :: value) →
    Skips value start → Reads start (.value v) after → Skips after (',' :: next) →
    Reads next (.members ms) rest → Reads text (.members ((String.ofList cs, v) :: ms)) rest

/-- A text that is one value, with blanks around it or none. -/
def Document (text : List Char) (v : Value) : Prop :=
  ∃ start after, Skips text start ∧ Reads start (.value v) after ∧ Skips after []

/-! ## One reading at most -/

variable {text text' rest rest' : List Char}

/-- A text that does not start with a blank. -/
def Solid (text : List Char) : Prop :=
  ∀ c ∈ text.head?, isSpace c = false

theorem solid_cons {c : Char} (hc : isSpace c = false) : Solid (c :: text) := by
  intro d hd
  obtain rfl := Option.some.inj hd
  exact hc

theorem Skips.unique (h : Skips text rest) (h' : Skips text rest') (hs : Solid rest)
    (hs' : Solid rest') : rest = rest' := by
  induction h with
  | nil =>
    cases h' with
    | nil => rfl
    | cons hc _ => simp [hs _ rfl] at hc
  | cons hc _ ih =>
    cases h' with
    | nil => simp [hs' _ rfl] at hc
    | cons _ h' => exact ih h' hs

theorem Characters.unique {cs cs' : List Char} (h : Characters text cs rest)
    (h' : Characters text cs' rest') : cs = cs' ∧ rest = rest' := by
  induction h generalizing cs' with
  | close =>
    cases h' with
    | close => exact ⟨rfl, rfl⟩
    | plain hc => simp [isPlain] at hc
  | plain hc _ ih =>
    cases h' with
    | close => simp [isPlain] at hc
    | plain _ h' => simpa using ih h'
    | escape => simp [isPlain] at hc
    | unit => simp [isPlain] at hc
    | pair => simp [isPlain] at hc
  | escape he _ ih =>
    cases h' with
    | plain hc => simp [isPlain] at hc
    | escape he' h' =>
      obtain rfl := Option.some.inj (he.symm.trans he')
      simpa using ih h'
    | unit => cases he
    | pair => cases he
  | unit hn hvalid _ ih =>
    cases h' with
    | plain hc => simp [isPlain] at hc
    | escape he => cases he
    | unit hn' _ h' =>
      obtain ⟨rfl, rfl⟩ := Prod.mk.inj (Option.some.inj (hn.symm.trans hn'))
      simpa using ih h'
    | pair hn' =>
      obtain ⟨rfl, rfl⟩ := Prod.mk.inj (Option.some.inj (hn.symm.trans hn'))
      rcases hvalid with hvalid | hvalid <;> omega
  | pair hn hlow hhigh hm _ _ _ ih =>
    cases h' with
    | plain hc => simp [isPlain] at hc
    | escape he => cases he
    | unit hn' hvalid =>
      obtain ⟨rfl, rfl⟩ := Prod.mk.inj (Option.some.inj (hn.symm.trans hn'))
      rcases hvalid with hvalid | hvalid <;> omega
    | pair hn' _ _ hm' _ _ h' =>
      obtain ⟨rfl, hbetween⟩ := Prod.mk.inj (Option.some.inj (hn.symm.trans hn'))
      cases hbetween
      obtain ⟨rfl, rfl⟩ := Prod.mk.inj (Option.some.inj (hm.symm.trans hm'))
      simpa using ih h'

/-- The characters of numbers. -/
def isNumeric (c : Char) : Bool :=
  c.isDigit || c == '-' || c == '+' || c == '.' || c == 'e' || c == 'E'

/-- A text that does not go on with a number. -/
def Ends (text : List Char) : Prop :=
  ∀ c, text.head? = some c → isNumeric c = false

theorem Digits.isNumeric {ds : List Char} (h : Digits ds) : ∀ d ∈ ds, isNumeric d := by
  intro d hd
  simp [JsonText.isNumeric, h.2 d hd]

namespace Number

variable {n n' : List Char}

theorem isNumeric (h : Number n) : ∀ c ∈ n, isNumeric c := by
  obtain ⟨sign, whole, fraction, exponent, rfl, hsign, hwhole, hfraction, hexponent⟩ := h.parts
  simp only [List.mem_append]
  rintro c (((hc | hc) | hc) | hc)
  · rcases hsign with rfl | rfl <;> simp_all [JsonText.isNumeric]
  · exact hwhole.1.isNumeric c hc
  · rcases hfraction with rfl | ⟨ds, rfl, hds⟩
    · simp at hc
    · rcases List.mem_cons.1 hc with rfl | hc
      · rfl
      · exact hds.isNumeric c hc
  · rcases hexponent with rfl | ⟨e, s, ds, rfl, he, hs, hds⟩
    · simp at hc
    · simp only [List.cons_append, List.mem_cons, List.mem_append] at hc
      rcases hc with rfl | hc | hc
      · rcases he with rfl | rfl <;> rfl
      · rcases hs with rfl | rfl | rfl <;> simp_all [JsonText.isNumeric]
      · exact hds.isNumeric c hc

/-- A number starts with a sign or a digit. -/
theorem head (h : Number n) {c : Char} (hc : n ++ rest = c :: text) : c = '-' ∨ c.isDigit := by
  obtain ⟨sign, whole, fraction, exponent, rfl, hsign, ⟨⟨hne, hdigits⟩, -⟩, -⟩ := h.parts
  rcases hsign with rfl | rfl
  · obtain ⟨d, ds, rfl⟩ := List.exists_cons_of_ne_nil hne
    obtain rfl : d = c := by simpa using congrArg List.head? hc
    exact .inr (hdigits d List.mem_cons_self)
  · exact .inl (by simpa using (congrArg List.head? hc).symm)

/-- What does not go on with a number ends it. -/
theorem unique (h : Number n) (h' : Number n') (he : Ends rest) (he' : Ends rest')
    (heq : n ++ rest = n' ++ rest') : n = n' ∧ rest = rest' := by
  have hn : n = n' := by
    rw [← takeWhile_append_of_stop h.isNumeric he, heq, takeWhile_append_of_stop h'.isNumeric he']
  subst hn
  exact ⟨rfl, List.append_cancel_left heq⟩

end Number

/-- A value starts with no blank. -/
theorem Reads.solid {v : Value} (h : Reads text (.value v) rest) : Solid text := by
  cases h with
  | number hn heq =>
    intro c hc
    obtain ⟨cs, rfl⟩ := List.head?_eq_some_iff.1 hc
    rcases hn.head heq.symm with rfl | hc
    · rfl
    · cases hb : isSpace c with
      | false => rfl
      | true =>
        simp only [isSpace, Bool.or_eq_true, beq_iff_eq] at hb
        rcases hb with ((rfl | rfl) | rfl) | rfl <;> cases hc
  | _ => exact solid_cons rfl

/-- The marks that may follow a value inside of another. -/
def isMark (c : Char) : Bool :=
  c == ',' || c == ']' || c == '\x7d'

theorem isMark_cases {c : Char} (hc : isMark c) : isSpace c = false ∧ isNumeric c = false := by
  simp only [isMark, Bool.or_eq_true, beq_iff_eq] at hc
  rcases hc with (rfl | rfl) | rfl <;> exact ⟨rfl, rfl⟩

theorem ends_nil : Ends [] := by
  intro c hc
  cases hc

theorem ends_cons {c : Char} (hc : isNumeric c = false) : Ends (c :: text) := by
  intro d hd
  obtain rfl := Option.some.inj hd
  exact hc

/-- No blank goes on with a number. -/
theorem Skips.ends (h : Skips text rest) (hrest : Ends rest) : Ends text := by
  cases h with
  | nil => exact hrest
  | cons hb _ =>
    simp only [isSpace, Bool.or_eq_true, beq_iff_eq] at hb
    rcases hb with ((rfl | rfl) | rfl) | rfl <;> exact ends_cons rfl

/-- Whether two phrases are of one sort. -/
def Phrase.SameSort : Phrase → Phrase → Prop
  | .value _, .value _ | .items _, .items _ | .members _, .members _ => True
  | _, _ => False

/-- If a text starts with one value at most, then there is one value and one mark after it at
most. -/
theorem unique_before_mark {start start' after after' : List Char} {v v' : Value} {m m' : Char}
    (ih : ∀ {p' after'}, Reads start p' after' → (Phrase.value v).SameSort p' → Ends after →
      Ends after' → Phrase.value v = p' ∧ after = after')
    (hb : Skips text start) (hv : Reads start (.value v) after) (hm : Skips after (m :: rest))
    (hb' : Skips text start') (hv' : Reads start' (.value v') after')
    (hm' : Skips after' (m' :: rest')) (hmark : isMark m) (hmark' : isMark m') :
    v = v' ∧ m = m' ∧ rest = rest' := by
  obtain rfl := hb.unique hb' hv.solid hv'.solid
  obtain ⟨hblank, hnumeric⟩ := isMark_cases hmark
  obtain ⟨hblank', hnumeric'⟩ := isMark_cases hmark'
  obtain ⟨hvalue, rfl⟩ :=
    ih hv' trivial (hm.ends (ends_cons hnumeric)) (hm'.ends (ends_cons hnumeric'))
  have hrest := hm.unique hm' (solid_cons hblank) (solid_cons hblank')
  exact ⟨Phrase.value.inj hvalue, List.cons.inj hrest⟩

/-- A member has one name at most, and one text after its colon. -/
theorem unique_name {name name' colon colon' cs cs' value value' : List Char}
    (hn : Skips text ('"' :: name)) (hcs : Characters name cs colon)
    (hc : Skips colon (':' :: value)) (hn' : Skips text ('"' :: name'))
    (hcs' : Characters name' cs' colon') (hc' : Skips colon' (':' :: value')) :
    cs = cs' ∧ value = value' := by
  obtain rfl : name = name' := by
    simpa using hn.unique hn' (solid_cons rfl) (solid_cons rfl)
  obtain ⟨rfl, rfl⟩ := hcs.unique hcs'
  have hvalue := hc.unique hc' (solid_cons rfl) (solid_cons rfl)
  exact ⟨rfl, (List.cons.inj hvalue).2⟩

/-- The brackets of an empty array have no items between them. -/
theorem Skips.not_items {vs : List Value} (h : Skips text (']' :: rest)) :
    ¬ Reads text (.items vs) rest' := by
  have hvalue {v : Value} {start after : List Char} (hb : Skips text start)
      (hv : Reads start (.value v) after) : False := by
    obtain rfl := hb.unique h hv.solid (solid_cons rfl)
    cases hv with
    | number hn heq => simpa using hn.head heq.symm
  intro h'
  cases h' with
  | lastItem hb hv => exact hvalue hb hv
  | item hb hv => exact hvalue hb hv

/-- The brackets of an empty object have no members between them. -/
theorem Skips.not_members {ms : List (String × Value)} (h : Skips text ('\x7d' :: rest)) :
    ¬ Reads text (.members ms) rest' := by
  have hname {name : List Char} (hb : Skips text ('"' :: name)) : False := by
    simpa using hb.unique h (solid_cons rfl) (solid_cons rfl)
  intro h'
  cases h' with
  | lastMember hb => exact hname hb
  | member hb => exact hname hb

/-- A text starts with one phrase of a sort at most, if the text after it does not go on with a
number. -/
theorem Reads.unique {p p' : Phrase} (h : Reads text p rest) (h' : Reads text p' rest')
    (hsort : p.SameSort p') (he : Ends rest) (he' : Ends rest') : p = p' ∧ rest = rest' := by
  -- the first character tells the sorts of values apart, the blanks before a bracket or a comma
  -- can be told from what they stand before, and a value in front of them ends there
  induction h generalizing p' rest' with
  | null =>
    cases h' with
    | null => exact ⟨rfl, rfl⟩
    | number hn heq => simpa using hn.head heq.symm
    | _ => cases hsort
  | true =>
    cases h' with
    | true => exact ⟨rfl, rfl⟩
    | number hn heq => simpa using hn.head heq.symm
    | _ => cases hsort
  | false =>
    cases h' with
    | false => exact ⟨rfl, rfl⟩
    | number hn heq => simpa using hn.head heq.symm
    | _ => cases hsort
  | number hn heq =>
    cases h' with
    | number hn' heq' =>
      obtain ⟨rfl, rfl⟩ := hn.unique hn' he he' (heq.symm.trans heq')
      exact ⟨rfl, rfl⟩
    | lastItem | item | lastMember | member => cases hsort
    | _ => simpa using hn.head heq.symm
  | string hcs =>
    cases h' with
    | string hcs' =>
      obtain ⟨rfl, rfl⟩ := hcs.unique hcs'
      exact ⟨rfl, rfl⟩
    | number hn heq => simpa using hn.head heq.symm
    | _ => cases hsort
  | emptyArray hb =>
    cases h' with
    | emptyArray hb' => simpa using hb.unique hb' (solid_cons rfl) (solid_cons rfl)
    | array h' => exact absurd h' hb.not_items
    | number hn heq => simpa using hn.head heq.symm
    | _ => cases hsort
  | array h ih =>
    cases h' with
    | emptyArray hb' => exact absurd h hb'.not_items
    | array h' => simpa using ih h' trivial he he'
    | number hn heq => simpa using hn.head heq.symm
    | _ => cases hsort
  | emptyObject hb =>
    cases h' with
    | emptyObject hb' => simpa using hb.unique hb' (solid_cons rfl) (solid_cons rfl)
    | object h' => exact absurd h' hb.not_members
    | number hn heq => simpa using hn.head heq.symm
    | _ => cases hsort
  | object h ih =>
    cases h' with
    | emptyObject hb' => exact absurd h hb'.not_members
    | object h' => simpa using ih h' trivial he he'
    | number hn heq => simpa using hn.head heq.symm
    | _ => cases hsort
  | lastItem hb hv hm ih =>
    cases h' with
    | lastItem hb' hv' hm' =>
      obtain ⟨rfl, -, rfl⟩ := unique_before_mark ih hb hv hm hb' hv' hm' rfl rfl
      exact ⟨rfl, rfl⟩
    | item hb' hv' hm' =>
      obtain ⟨-, hmark, -⟩ := unique_before_mark ih hb hv hm hb' hv' hm' rfl rfl
      cases hmark
    | _ => cases hsort
  | item hb hv hm _ ih ihs =>
    cases h' with
    | lastItem hb' hv' hm' =>
      obtain ⟨-, hmark, -⟩ := unique_before_mark ih hb hv hm hb' hv' hm' rfl rfl
      cases hmark
    | item hb' hv' hm' h' =>
      obtain ⟨rfl, -, rfl⟩ := unique_before_mark ih hb hv hm hb' hv' hm' rfl rfl
      simpa using ihs h' trivial he he'
    | _ => cases hsort
  | lastMember hn hcs hc hb hv hm ih =>
    cases h' with
    | lastMember hn' hcs' hc' hb' hv' hm' =>
      obtain ⟨rfl, rfl⟩ := unique_name hn hcs hc hn' hcs' hc'
      obtain ⟨rfl, -, rfl⟩ := unique_before_mark ih hb hv hm hb' hv' hm' rfl rfl
      exact ⟨rfl, rfl⟩
    | member hn' hcs' hc' hb' hv' hm' =>
      obtain ⟨rfl, rfl⟩ := unique_name hn hcs hc hn' hcs' hc'
      obtain ⟨-, hmark, -⟩ := unique_before_mark ih hb hv hm hb' hv' hm' rfl rfl
      cases hmark
    | _ => cases hsort
  | member hn hcs hc hb hv hm _ ih ihs =>
    cases h' with
    | lastMember hn' hcs' hc' hb' hv' hm' =>
      obtain ⟨rfl, rfl⟩ := unique_name hn hcs hc hn' hcs' hc'
      obtain ⟨-, hmark, -⟩ := unique_before_mark ih hb hv hm hb' hv' hm' rfl rfl
      cases hmark
    | member hn' hcs' hc' hb' hv' hm' h' =>
      obtain ⟨rfl, rfl⟩ := unique_name hn hcs hc hn' hcs' hc'
      obtain ⟨rfl, -, rfl⟩ := unique_before_mark ih hb hv hm hb' hv' hm' rfl rfl
      simpa using ihs h' trivial he he'
    | _ => cases hsort

/-- A text is one document at most. -/
theorem Document.unique {v v' : Value} (h : Document text v) (h' : Document text v') : v = v' := by
  obtain ⟨start, after, hb, hv, hend⟩ := h
  obtain ⟨start', after', hb', hv', hend'⟩ := h'
  obtain rfl := hb.unique hb' hv.solid hv'.solid
  exact Phrase.value.inj
    (hv.unique hv' trivial (hend.ends ends_nil) (hend'.ends ends_nil)).1

end RubyLex.JsonText

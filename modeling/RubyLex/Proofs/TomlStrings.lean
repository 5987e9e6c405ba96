import Mathlib.Tactic.IntervalCases
import RubyLex.Toml.Writer

/-!
# Reading TOML strings back

A text is written in one of four styles, and the reader of strings reads it back in each of them,
whatever the text is (`string?_write`).  On one line every mark inside is escaped or absent, so that
the first mark ends the string.  On several lines two marks in a row may stand as they are, and up
to two may stand right before the three that end the string; there the reader sees the end early and
gives the surplus to the text (`closing`).
-/

namespace RubyLex.Toml

variable {c mark : Char} {cs text rest : List Char} {lines : Bool} {run : Nat}

/-! ## Characters -/

theorem isPlain_of_needsEscape (h : needsEscape c = false) (hc : c ≠ '\n') : isPlain c = true := by
  simpa [needsEscape, hc] using h

theorem hexValue?_upperHexDigit {n : Nat} (hn : n < 16) : hexValue? (upperHexDigit n) = some n := by
  revert n
  decide

theorem codePoint?_fourDigits {n : Nat} (hn : n < 0x10000) (hvalid : n.isValidChar)
    (rest : List Char) : codePoint? 4 (fourDigits n ++ rest) = some (Char.ofNat n, rest) := by
  have hdigit (k : Nat) : hexValue? (upperHexDigit (k % 16)) = some (k % 16) :=
    hexValue?_upperHexDigit (Nat.mod_lt _ (by decide))
  have hvalue : (((0 * 16 + n / 4096 % 16) * 16 + n / 256 % 16) * 16 + n / 16 % 16) * 16 + n % 16 =
      n := by
    omega
  simp only [codePoint?, fourDigits, List.cons_append, List.nil_append, hexNumber?, hdigit,
    Option.bind_some, hvalue, if_pos hvalid]

theorem lineBreak?_cons (hn : c ≠ '\n') (hr : c ≠ '\r') (text : List Char) :
    lineBreak? (c :: text) = none := by
  unfold lineBreak?
  split <;> simp_all

theorem continuation?_cons (hs : isSpace c = false) (hn : c ≠ '\n') (hr : c ≠ '\r')
    (text : List Char) : continuation? (c :: text) = none := by
  rw [continuation?, skipSpaces, List.dropWhile_cons_of_neg (by simp [hs]), lineBreak?_cons hn hr]
  rfl

/-- A control character that has no letter of its own is written as four digits. -/
theorem escape?_fourDigits (h : needsEscape c = true) (rest : List Char) :
    escape? ('u' :: fourDigits c.toNat ++ rest) = some (c, rest) := by
  have hsmall : c.toNat < 0x80 := by
    simp only [needsEscape, isPlain, Bool.and_eq_true, Bool.not_eq_true', Bool.or_eq_false_iff,
      Bool.and_eq_false_iff, decide_eq_false_iff_not] at h
    omega
  have h := codePoint?_fourDigits (n := c.toNat) (by omega) (.inl (by omega)) rest
  rwa [Char.ofNat_toNat] at h

/-- A character other than a mark is written as it stands, or after a backslash as an escape that
is read back and that does not join lines. -/
theorem escapeChar_cases (lines : Bool) (c : Char) :
    (escapeChar lines c = [c] ∧ c ≠ '\\' ∧ c ≠ '\r' ∧
        (isPlain c = true ∨ lines = true ∧ c = '\n')) ∨
      ∃ w, escapeChar lines c = '\\' :: w ∧ ∀ rest,
        escape? (w ++ rest) = some (c, rest) ∧ continuation? (w ++ rest) = none := by
  have hletter {c e : Char} (he : ∀ rest, escape? (e :: rest) = some (c, rest))
      (hgraphic : isSpace e = false ∧ e ≠ '\n' ∧ e ≠ '\r') :
      ∃ w, ['\\', e] = '\\' :: w ∧ ∀ rest,
        escape? (w ++ rest) = some (c, rest) ∧ continuation? (w ++ rest) = none :=
    ⟨[e], rfl, fun rest ↦ ⟨he rest, continuation?_cons hgraphic.1 hgraphic.2.1 hgraphic.2.2 rest⟩⟩
  unfold escapeChar
  split_ifs with hb ht hn hlines hf hr hbackslash hcontrol
  · subst hb
    exact .inr (hletter (fun _ ↦ rfl) (by decide))
  · subst ht
    exact .inr (hletter (fun _ ↦ rfl) (by decide))
  · subst hn
    exact .inl ⟨rfl, by decide, by decide, .inr ⟨hlines, rfl⟩⟩
  · subst hn
    exact .inr (hletter (fun _ ↦ rfl) (by decide))
  · subst hf
    exact .inr (hletter (fun _ ↦ rfl) (by decide))
  · subst hr
    exact .inr (hletter (fun _ ↦ rfl) (by decide))
  · subst hbackslash
    exact .inr (hletter (fun _ ↦ rfl) (by decide))
  · exact .inr ⟨'u' :: fourDigits c.toNat, rfl, fun rest ↦
      ⟨escape?_fourDigits hcontrol rest, continuation?_cons rfl (by decide) (by decide) _⟩⟩
  · exact .inl ⟨rfl, hbackslash, hr, .inl (isPlain_of_needsEscape (by simpa using hcontrol) hn)⟩

/-- What is written of a text starts with a backslash or with its first character, which is then no
carriage return, and a mark only if it is free. -/
theorem escapeText_cons (lines : Bool) (free run : Nat) (c : Char) (cs : List Char) :
    ∃ a text, escapeText lines free run (c :: cs) = a :: text ∧
      (a = '\\' ∨ a = c ∧ c ≠ '\r' ∧ (c = '"' → run < free)) := by
  rw [escapeText]
  by_cases hquote : c = '"'
  · subst hquote
    rw [if_pos rfl]
    split
    · next hfree => exact ⟨_, _, rfl, .inr ⟨rfl, by decide, fun _ ↦ hfree⟩⟩
    · exact ⟨_, _, rfl, .inl rfl⟩
  · rw [if_neg hquote]
    rcases escapeChar_cases lines c with ⟨hw, -, hr, -⟩ | ⟨w, hw, -⟩
    · exact ⟨c, _, by rw [hw, List.singleton_append], .inr ⟨rfl, hr, fun h ↦ absurd h hquote⟩⟩
    · exact ⟨'\\', _, by rw [hw, List.cons_append], .inl rfl⟩

/-! ## On one line -/

theorem basic?_close (rest : List Char) : basic? ('"' :: rest) = some ([], rest) := by
  rw [basic?, if_pos rfl]

theorem basic?_escape (h : escape? text = some (c, rest)) :
    basic? ('\\' :: text) = prepend c (basic? rest) := by
  rw [basic?, if_neg (by decide), if_pos rfl]
  split
  · next hnone => simp [h] at hnone
  · next hsome =>
    obtain ⟨rfl, rfl⟩ := Prod.mk.inj (Option.some.inj (h.symm.trans hsome))
    rfl

theorem basic?_cons (hquote : c ≠ '"') (hbackslash : c ≠ '\\') (hplain : isPlain c = true)
    (text : List Char) : basic? (c :: text) = prepend c (basic? text) := by
  rw [basic?, if_neg hquote, if_neg hbackslash, if_pos hplain]

/-- A text with escapes on one line is read up to the mark after it. -/
theorem basic?_escapeText (cs rest : List Char) :
    basic? (escapeText false 0 0 cs ++ '"' :: rest) = some (cs, rest) := by
  induction cs with
  | nil => exact basic?_close rest
  | cons c cs ih =>
    by_cases hquote : c = '"'
    · subst hquote
      simp only [escapeText, if_pos, Nat.lt_irrefl, if_false, List.cons_append]
      rw [basic?_escape (c := '"') rfl, ih]
      rfl
    · simp only [escapeText, if_neg hquote, List.append_assoc]
      obtain ⟨hw, hbackslash, -, hplain | ⟨hlines, -⟩⟩ | ⟨w, hw, hread⟩ :=
        escapeChar_cases false c
      · rw [hw, List.singleton_append, basic?_cons hquote hbackslash hplain, ih]
        rfl
      · cases hlines
      · rw [hw, List.cons_append, basic?_escape (hread _).1, ih]
        rfl

theorem literal?_append (hplain : ∀ c ∈ cs, isPlain c = true ∧ c ≠ '\x27') (rest : List Char) :
    literal? (cs ++ '\x27' :: rest) = some (cs, rest) := by
  induction cs with
  | nil => simp [literal?]
  | cons c cs ih =>
    obtain ⟨hc, hmark⟩ := hplain c List.mem_cons_self
    rw [List.cons_append, literal?, if_neg hmark, if_pos hc,
      ih fun d hd ↦ hplain d (List.mem_cons_of_mem c hd)]
    rfl

/-! ## Runs of marks -/

theorem threeMarks?_cons_of_ne (hc : c ≠ mark) (text : List Char) :
    threeMarks? mark (c :: text) = none := by
  unfold threeMarks?
  split <;> simp_all

theorem threeMarks?_replicate {k : Nat} (hk : k ≤ 2) (mark : Char) (rest : List Char) :
    threeMarks? mark (List.replicate k mark ++ mark :: mark :: mark :: rest) =
      some (List.replicate k mark ++ rest) := by
  interval_cases k <;> exact if_pos ⟨rfl, rfl, rfl⟩

/-- Up to two marks before the three that end a string belong to it. -/
theorem closing_replicate {k : Nat} (hk : k ≤ 2) (hrest : rest.head? ≠ some mark) :
    closing mark (List.replicate k mark ++ rest) = (List.replicate k mark, rest) := by
  rcases rest with _ | ⟨a, _ | ⟨b, rest⟩⟩ <;> interval_cases k <;> simp_all [closing]

/-- A text in front of which at most `n` marks stand, and after them something else. -/
def FewMarks (mark : Char) (n : Nat) (text : List Char) : Prop :=
  ∃ k ≤ n, ∃ c after, c ≠ mark ∧ text = List.replicate k mark ++ c :: after

theorem fewMarks_cons {n : Nat} (hc : c ≠ mark) (text : List Char) : FewMarks mark n (c :: text) :=
  ⟨0, Nat.zero_le n, c, text, hc, rfl⟩

theorem FewMarks.cons {n : Nat} (h : FewMarks mark n text) :
    FewMarks mark (n + 1) (mark :: text) := by
  obtain ⟨k, hk, c, after, hc, rfl⟩ := h
  exact ⟨k + 1, Nat.succ_le_succ hk, c, after, hc, rfl⟩

theorem FewMarks.mono {n n' : Nat} (h : FewMarks mark n text) (hn : n ≤ n') :
    FewMarks mark n' text := by
  obtain ⟨k, hk, hfront⟩ := h
  exact ⟨k, Nat.le_trans hk hn, hfront⟩

theorem FewMarks.threeMarks? (h : FewMarks mark 2 text) (rest : List Char) :
    threeMarks? mark (text ++ rest) = none := by
  obtain ⟨k, hk, c, after, hc, rfl⟩ := h
  rw [List.append_assoc, List.cons_append]
  generalize after ++ rest = after
  interval_cases k
  · exact threeMarks?_cons_of_ne hc after
  · cases after with
    | nil => rfl
    | cons => exact if_neg fun h ↦ hc h.2.1
  · exact if_neg fun h ↦ hc h.2.2

theorem longestRun_mono {run' : Nat} (h : run ≤ run') (mark : Char) (cs : List Char) :
    longestRun mark run cs ≤ longestRun mark run' cs := by
  induction cs generalizing run run' with
  | nil => exact h
  | cons c cs ih =>
    simp only [longestRun]
    split
    · exact ih (Nat.succ_le_succ h)
    · omega

theorem le_longestRun (mark : Char) (run : Nat) (cs : List Char) :
    run ≤ longestRun mark run cs := by
  induction cs generalizing run with
  | nil => exact Nat.le_refl run
  | cons c cs ih =>
    rw [longestRun]
    split
    · exact Nat.le_of_succ_le (ih (run + 1))
    · exact Nat.le_max_left _ _

theorem longestRun_tail_le {n : Nat} (h : longestRun mark 0 (c :: cs) ≤ n) :
    longestRun mark 0 cs ≤ n := by
  rw [longestRun] at h
  split at h
  · exact Nat.le_trans (longestRun_mono (Nat.zero_le _) mark cs) h
  · exact Nat.le_trans (Nat.le_max_right _ _) h

/-- A text whose runs of marks are short is a few marks, or it has few marks in front. -/
theorem fewMarks_of_longestRun {n : Nat} (h : longestRun mark run cs ≤ run + n) :
    (∃ k ≤ n, cs = List.replicate k mark) ∨ FewMarks mark n cs := by
  induction cs generalizing run n with
  | nil => exact .inl ⟨0, Nat.zero_le n, rfl⟩
  | cons c cs ih =>
    by_cases hc : c = mark
    · subst hc
      rw [longestRun, if_pos rfl] at h
      have hrun := le_longestRun c (run + 1) cs
      obtain ⟨n, rfl⟩ : ∃ m, n = m + 1 := ⟨n - 1, by omega⟩
      have hshort : longestRun c (run + 1) cs ≤ run + 1 + n := by omega
      obtain ⟨k, hk, rfl⟩ | hfew := ih hshort
      · exact .inl ⟨k + 1, Nat.succ_le_succ hk, rfl⟩
      · exact .inr hfew.cons
    · exact .inr (fewMarks_cons hc cs)

/-! ## On several lines -/

theorem basicLines?_close {after : List Char} (h : threeMarks? '"' text = some after) :
    basicLines? text = some (closing '"' after) := by
  cases text with
  | nil => cases h
  | cons c text =>
    rw [basicLines?.eq_def]
    simp only [h]

theorem basicLines?_escape (hjoin : continuation? text = none)
    (h : escape? text = some (c, rest)) :
    basicLines? ('\\' :: text) = prepend c (basicLines? rest) := by
  rw [basicLines?.eq_def]
  simp only [threeMarks?_cons_of_ne (show '\\' ≠ '"' by decide), if_true]
  split
  · next hsome => simp [hjoin] at hsome
  · split
    · next hnone => simp [h] at hnone
    · next hsome =>
      obtain ⟨rfl, rfl⟩ := Prod.mk.inj (Option.some.inj (h.symm.trans hsome))
      rfl

theorem basicLines?_cons (hmarks : threeMarks? '"' (c :: text) = none) (hbackslash : c ≠ '\\')
    (hr : c ≠ '\r') (hplain : isPlain c = true ∨ c = '\n') :
    basicLines? (c :: text) = prepend c (basicLines? text) := by
  rw [basicLines?.eq_def]
  simp only [hmarks, if_neg hbackslash, if_neg hr]
  by_cases hn : c = '\n'
  · rw [if_pos hn]
  · rw [if_neg hn, if_pos (hplain.resolve_right hn)]

theorem literalLines?_close {after : List Char} (h : threeMarks? '\x27' text = some after) :
    literalLines? text = some (closing '\x27' after) := by
  cases text with
  | nil => cases h
  | cons c text =>
    rw [literalLines?.eq_def]
    simp only [h]

theorem literalLines?_cons (hmarks : threeMarks? '\x27' (c :: text) = none)
    (hr : c ≠ '\r') (hplain : isPlain c = true ∨ c = '\n') :
    literalLines? (c :: text) = prepend c (literalLines? text) := by
  rw [literalLines?.eq_def]
  simp only [hmarks, if_neg hr]
  by_cases hn : c = '\n'
  · rw [if_pos hn]
  · rw [if_neg hn, if_pos (hplain.resolve_right hn)]

theorem basicLines?_replicate {k : Nat} (hk : k ≤ 2) (hrest : rest.head? ≠ some '"') :
    basicLines? (List.replicate k '"' ++ '"' :: '"' :: '"' :: rest) =
      some (List.replicate k '"', rest) := by
  rw [basicLines?_close (threeMarks?_replicate hk ..), closing_replicate hk hrest]

theorem literalLines?_replicate {k : Nat} (hk : k ≤ 2) (hrest : rest.head? ≠ some '\x27') :
    literalLines? (List.replicate k '\x27' ++ '\x27' :: '\x27' :: '\x27' :: rest) =
      some (List.replicate k '\x27', rest) := by
  rw [literalLines?_close (threeMarks?_replicate hk ..), closing_replicate hk hrest]

/-- A text without escapes on several lines is read up to the three marks after it. -/
theorem literalLines?_append (hplain : ∀ c ∈ cs, (isPlain c = true ∨ c = '\n') ∧ c ≠ '\r')
    (hruns : longestRun '\x27' 0 cs ≤ 2) (hrest : rest.head? ≠ some '\x27') :
    literalLines? (cs ++ '\x27' :: '\x27' :: '\x27' :: rest) = some (cs, rest) := by
  induction cs with
  | nil => exact literalLines?_replicate (k := 0) (Nat.zero_le 2) hrest
  | cons c cs ih =>
    have ih := ih (fun d hd ↦ hplain d (List.mem_cons_of_mem c hd)) (longestRun_tail_le hruns)
    obtain ⟨hc, hr⟩ := hplain c List.mem_cons_self
    have hshort : longestRun '\x27' 0 (c :: cs) ≤ 0 + 2 := by simpa using hruns
    obtain ⟨k, hk, hall⟩ | hfew := fewMarks_of_longestRun hshort
    · rw [hall]
      exact literalLines?_replicate hk hrest
    · have hmarks := hfew.threeMarks? ('\x27' :: '\x27' :: '\x27' :: rest)
      rw [List.cons_append] at hmarks ⊢
      rw [literalLines?_cons hmarks hr hc, ih]
      rfl

/-- What is written of a text after `run` marks is the text and few marks, or it has few marks in
front. -/
theorem fewMarks_escapeText {n : Nat} (hrun : run + n = 2) (cs : List Char) :
    (∃ k ≤ n, cs = List.replicate k '"' ∧ escapeText true 2 run cs = cs) ∨
      FewMarks '"' n (escapeText true 2 run cs) := by
  induction cs generalizing run n with
  | nil => exact .inl ⟨0, Nat.zero_le n, rfl, rfl⟩
  | cons c cs ih =>
    by_cases hquote : c = '"'
    · subst hquote
      simp only [escapeText, if_true]
      cases n with
      | zero =>
        rw [if_neg (by omega)]
        exact .inr (fewMarks_cons (by decide) _)
      | succ n =>
        rw [if_pos (by omega)]
        have hrun : run + 1 + n = 2 := by omega
        obtain ⟨k, hk, hcs, htext⟩ | hfew := ih hrun
        · exact .inl ⟨k + 1, Nat.succ_le_succ hk, congrArg ('"' :: ·) hcs,
            congrArg ('"' :: ·) htext⟩
        · exact .inr hfew.cons
    · obtain ⟨a, text, htext, rfl | ⟨rfl, -⟩⟩ := escapeText_cons true 2 run c cs
      · exact .inr (htext ▸ fewMarks_cons (by decide) text)
      · exact .inr (htext ▸ fewMarks_cons hquote text)

/-- A text with escapes on several lines is read up to the three marks after it, if at most two
marks in front of it were read. -/
theorem basicLines?_escapeText (hrun : run ≤ 2) (hrest : rest.head? ≠ some '"') (cs : List Char) :
    basicLines? (escapeText true 2 run cs ++ '"' :: '"' :: '"' :: rest) = some (cs, rest) := by
  induction cs generalizing run with
  | nil => exact basicLines?_replicate (k := 0) (Nat.zero_le 2) hrest
  | cons c cs ih =>
    by_cases hquote : c = '"'
    · subst hquote
      by_cases hfree : run < 2
      · obtain ⟨k, hk, hcs, htext⟩ | hfew :=
          fewMarks_escapeText (Nat.add_sub_cancel' hrun) ('"' :: cs)
        · rw [htext, hcs]
          exact basicLines?_replicate (by omega) hrest
        · have hmarks := (hfew.mono (Nat.sub_le 2 run)).threeMarks? ('"' :: '"' :: '"' :: rest)
          simp only [escapeText, if_true, if_pos hfree, List.cons_append] at hmarks ⊢
          rw [basicLines?_cons hmarks (by decide) (by decide) (.inl rfl), ih (by omega)]
          rfl
      · simp only [escapeText, if_true, if_neg hfree, List.cons_append]
        rw [basicLines?_escape (c := '"') (continuation?_cons rfl (by decide) (by decide) _) rfl,
          ih (Nat.zero_le 2)]
        rfl
    · simp only [escapeText, if_neg hquote, List.append_assoc]
      rcases escapeChar_cases true c with ⟨hw, hbackslash, hr, hplain⟩ | ⟨w, hw, hread⟩
      · rw [hw, List.singleton_append, basicLines?_cons (threeMarks?_cons_of_ne hquote _) hbackslash
          hr (hplain.imp_right And.right), ih (Nat.zero_le 2)]
        rfl
      · rw [hw, List.cons_append, basicLines?_escape (hread _).2 (hread _).1, ih (Nat.zero_le 2)]
        rfl

/-! ## Any style -/

theorem threeMarks?_open (mark : Char) (text : List Char) :
    threeMarks? mark (mark :: mark :: mark :: text) = some text :=
  threeMarks?_replicate (k := 0) (Nat.zero_le 2) mark text

/-- The marks of a text on one line are not three, empty or not. -/
theorem threeMarks?_enclosed (htext : text.head? ≠ some mark) (hrest : rest.head? ≠ some mark) :
    threeMarks? mark (mark :: (text ++ mark :: rest)) = none := by
  cases text with
  | nil => cases rest <;> simp_all [threeMarks?]
  | cons a text =>
    have ha : a ≠ mark := by simpa using htext
    have hfew := (fewMarks_cons (n := 1) ha text).cons
    exact hfew.threeMarks? (mark :: rest)

/-- The line break after the opening marks is dropped, and there is none to be dropped if the text
has none. -/
theorem afterOpening_opening (hn : text.head? = some '\n' → '\n' ∈ cs)
    (hr : text.head? ≠ some '\r') : afterOpening (opening cs ++ text) = text := by
  unfold opening
  split
  · rfl
  · next hcontains =>
    cases text with
    | nil => rfl
    | cons c text =>
      have hc : c ≠ '\n' := by
        rintro rfl
        simp [hn rfl] at hcontains
      rw [List.nil_append, afterOpening, lineBreak?_cons hc (by simpa using hr)]
      rfl

theorem string?_basic (cs : List Char) (hrest : rest.head? ≠ some '"') :
    string? (Style.write cs .basic ++ rest) = some (cs, rest) := by
  have hhead : (escapeText false 0 0 cs).head? ≠ some '"' := by
    cases cs with
    | nil => simp [escapeText]
    | cons c cs =>
      obtain ⟨a, text, htext, rfl | ⟨rfl, -, hfree⟩⟩ := escapeText_cons false 0 0 c cs
      · simp [htext]
      · rw [htext, List.head?_cons]
        rintro ⟨⟩
        simpa using hfree rfl
  simp only [Style.write, List.cons_append, List.append_assoc, List.nil_append, string?,
    threeMarks?_enclosed hhead hrest, threeMarks?_cons_of_ne (show '"' ≠ '\x27' by decide)]
  exact basic?_escapeText cs rest

theorem string?_literal (hplain : ∀ c ∈ cs, isPlain c = true ∧ c ≠ '\x27')
    (hrest : rest.head? ≠ some '\x27') :
    string? (Style.write cs .literal ++ rest) = some (cs, rest) := by
  have hhead : cs.head? ≠ some '\x27' :=
    fun h ↦ (hplain _ (List.mem_of_mem_head? h)).2 rfl
  simp only [Style.write, List.cons_append, List.append_assoc, List.nil_append, string?,
    threeMarks?_enclosed hhead hrest, threeMarks?_cons_of_ne (show '\x27' ≠ '"' by decide)]
  exact literal?_append hplain rest

theorem string?_basicLines (cs : List Char) (hrest : rest.head? ≠ some '"') :
    string? (Style.write cs .basicLines ++ rest) = some (cs, rest) := by
  have hopening : afterOpening
      (opening cs ++ (escapeText true 2 0 cs ++ '"' :: '"' :: '"' :: rest)) =
        escapeText true 2 0 cs ++ '"' :: '"' :: '"' :: rest := by
    cases cs with
    | nil => rfl
    | cons c cs =>
      obtain ⟨a, text, htext, rfl | ⟨rfl, hr, -⟩⟩ := escapeText_cons true 2 0 c cs
      · rw [htext]
        exact afterOpening_opening (by simp) (by simp)
      · rw [htext]
        exact afterOpening_opening (by simp +contextual) (by simpa using hr)
  simp only [Style.write, List.cons_append, List.append_assoc, List.nil_append, string?,
    threeMarks?_open, hopening]
  exact basicLines?_escapeText (Nat.zero_le 2) hrest cs

theorem string?_literalLines (hplain : ∀ c ∈ cs, (isPlain c = true ∨ c = '\n') ∧ c ≠ '\r')
    (hruns : longestRun '\x27' 0 cs ≤ 2) (hrest : rest.head? ≠ some '\x27') :
    string? (Style.write cs .literalLines ++ rest) = some (cs, rest) := by
  have hopening : afterOpening (opening cs ++ (cs ++ '\x27' :: '\x27' :: '\x27' :: rest)) =
      cs ++ '\x27' :: '\x27' :: '\x27' :: rest := by
    cases cs with
    | nil => rfl
    | cons c cs =>
      exact afterOpening_opening (by simp +contextual)
        (by simpa using (hplain c List.mem_cons_self).2)
  simp only [Style.write, List.cons_append, List.append_assoc, List.nil_append, string?,
    threeMarks?_open, threeMarks?_cons_of_ne (show '\x27' ≠ '"' by decide), hopening]
  exact literalLines?_append hplain hruns hrest

theorem not_mem_of_longestRun (h : longestRun mark 0 cs = 0) : mark ∉ cs := by
  induction cs with
  | nil => exact List.not_mem_nil
  | cons c cs ih =>
    rw [longestRun] at h
    split at h
    · have hrun := le_longestRun mark (0 + 1) cs
      omega
    · next hc =>
      rw [List.mem_cons, not_or]
      exact ⟨Ne.symm hc, ih (by omega)⟩

/-- Single marks hold a text on one line without single marks and controls. -/
theorem of_ofText_literal (h : Style.ofText cs = .literal) :
    ∀ c ∈ cs, isPlain c = true ∧ c ≠ '\x27' := by
  simp only [Style.ofText] at h
  split_ifs at h with _ hliteral
  simp only [Bool.and_eq_true, Bool.not_eq_true', List.any_eq_false, decide_eq_true_eq,
    List.contains_eq_mem, decide_eq_false_iff_not] at hliteral
  obtain ⟨⟨hcontrols, hnewline⟩, hsingles⟩ := hliteral
  intro c hc
  refine ⟨isPlain_of_needsEscape (by simpa using hcontrols c hc) ?_, ?_⟩
  · rintro rfl
    exact hnewline hc
  · rintro rfl
    exact not_mem_of_longestRun hsingles hc

/-- Three single marks hold a text without controls and without three single marks in a row. -/
theorem of_ofText_literalLines (h : Style.ofText cs = .literalLines) :
    (∀ c ∈ cs, (isPlain c = true ∨ c = '\n') ∧ c ≠ '\r') ∧ longestRun '\x27' 0 cs ≤ 2 := by
  simp only [Style.ofText] at h
  split_ifs at h with _ _ _ hlines
  simp only [Bool.and_eq_true, Bool.not_eq_true', List.any_eq_false, decide_eq_true_eq] at hlines
  refine ⟨fun c hc ↦ ⟨?_, ?_⟩, hlines.2⟩
  · by_cases hn : c = '\n'
    · exact .inr hn
    · exact .inl (isPlain_of_needsEscape (by simpa using hlines.1 c hc) hn)
  · rintro rfl
    exact absurd rfl (hlines.1 _ hc)

/-- In whatever style a text is written, it is read back up to the end of its line. -/
theorem string?_write (cs rest : List Char) :
    string? ((Style.ofText cs).write cs ++ '\n' :: rest) = some (cs, '\n' :: rest) := by
  have hdouble : ('\n' :: rest).head? ≠ some '"' := by simp
  have hsingle : ('\n' :: rest).head? ≠ some '\x27' := by simp
  cases hstyle : Style.ofText cs with
  | basic => exact string?_basic cs hdouble
  | literal => exact string?_literal (of_ofText_literal hstyle) hsingle
  | basicLines => exact string?_basicLines cs hdouble
  | literalLines =>
    obtain ⟨hplain, hruns⟩ := of_ofText_literalLines hstyle
    exact string?_literalLines hplain hruns hsingle

end RubyLex.Toml

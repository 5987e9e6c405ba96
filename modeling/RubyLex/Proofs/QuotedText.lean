import Mathlib.Tactic.SplitIfs
import RubyLex.Text.Quoted

/-!
# Quoted text tells the text

A text between double quotes can be told from its quoted form, whatever comes after the closing
quote (`quote_append_inj`), and its quoted form stands on one line.  Both rest on `escape_cases`:
between the quotes a character stands for itself, or follows a backslash under a letter of its own,
or is spelled by its number.  The digits of a number tell it, and the brace after them is no digit.
-/

namespace RubyLex.Text

/-! ## Numbers in base sixteen -/

theorem isAlphanum_of_mem_hexDigits {n : Nat} {d : Char} (h : d ∈ hexDigits n) :
    d.isAlphanum = true := by
  have digit {k : Nat} (hk : k < 16) : k.digitChar.isAlphanum = true := by
    revert k
    decide
  rw [hexDigits] at h
  induction n using Nat.strongRecOn with
  | ind n ih =>
    rw [Nat.toDigits_eq_if (by decide)] at h
    split at h
    · next hn =>
      rw [List.mem_singleton.mp h]
      exact digit hn
    · rcases List.mem_append.mp h with h | h
      · exact ih (n / 16) (by omega) h
      · rw [List.mem_singleton.mp h]
        exact digit (Nat.mod_lt n (by decide))

theorem hexDigits_injective : Function.Injective hexDigits := by
  have digit {k k' : Nat} (hk : k < 16) (hk' : k' < 16) (h : k.digitChar = k'.digitChar) :
      k = k' := by
    have all : ∀ k < 16, ∀ k' < 16, k.digitChar = k'.digitChar → k = k' := by decide
    exact all k hk k' hk' h
  intro m n h
  rw [hexDigits, hexDigits] at h
  induction m using Nat.strongRecOn generalizing n with
  | ind m ih =>
    -- both numbers have one digit, or both have more and then their last digits agree
    rw [Nat.toDigits_eq_if (by decide), Nat.toDigits_eq_if (n := n) (by decide)] at h
    split at h <;> split at h
    · next hm hn => exact digit hm hn (List.singleton_inj.mp h)
    · have happend : [] ++ [m.digitChar] = Nat.toDigits 16 (n / 16) ++ [(n % 16).digitChar] := h
      exact absurd (List.append_inj' happend rfl).1.symm Nat.toDigits_ne_nil
    · have happend : Nat.toDigits 16 (m / 16) ++ [(m % 16).digitChar] = [] ++ [n.digitChar] := h
      exact absurd (List.append_inj' happend rfl).1 Nat.toDigits_ne_nil
    · next hm hn =>
      obtain ⟨hdigits, hlast⟩ := List.append_inj' h rfl
      have hdiv := ih (m / 16) (by omega) hdigits
      have hmod := digit (Nat.mod_lt m (by decide)) (Nat.mod_lt n (by decide))
        (List.singleton_inj.mp hlast)
      omega

/-! ## One character -/

/-- The character that a letter after a backslash stands for. -/
def ofLetter (e : Char) : Char :=
  if e = '0' then '\x00' else if e = 't' then '\t' else if e = 'n' then '\n'
  else if e = 'r' then '\r' else e

/-- How a character stands between double quotes: as it is, after a backslash, or by its number. -/
theorem escape_cases (c : Char) :
    (escape '"' c = [c] ∧ c ≠ '\\' ∧ c ≠ '"' ∧ c ≠ '\n') ∨
    (∃ e, escape '"' c = ['\\', e] ∧ ofLetter e = c ∧ e ≠ 'u' ∧ e ≠ '\n') ∨
    escape '"' c = '\\' :: 'u' :: '\x7b' :: hexDigits c.toNat ++ ['\x7d'] := by
  unfold escape
  split_ifs with hnul htab hfeed hreturn hself hhidden
  · exact .inr (.inl ⟨'0', rfl, hnul.symm, by decide, by decide⟩)
  · exact .inr (.inl ⟨'t', rfl, htab.symm, by decide, by decide⟩)
  · exact .inr (.inl ⟨'n', rfl, hfeed.symm, by decide, by decide⟩)
  · exact .inr (.inl ⟨'r', rfl, hreturn.symm, by decide, by decide⟩)
  · refine .inr (.inl ⟨c, rfl, ?_⟩)
    rcases hself with rfl | rfl <;> decide
  · exact .inr (.inr rfl)
  · rw [not_or] at hself
    exact .inl ⟨rfl, hself.1, hself.2, hfeed⟩

/-- A character can be told from what stands for it, whatever follows. -/
theorem escape_append_inj {c c' : Char} {rest rest' : List Char}
    (h : escape '"' c ++ rest = escape '"' c' ++ rest') : c = c' ∧ rest = rest' := by
  rcases escape_cases c with ⟨he, hc, -⟩ | ⟨e, he, hc, hu, -⟩ | he <;>
    rcases escape_cases c' with ⟨he', hc', -⟩ | ⟨e', he', hc', hu', -⟩ | he' <;>
    simp only [he, he', List.cons_append, List.nil_append, List.cons.injEq] at h
  · exact h
  · exact absurd h.1 hc
  · exact absurd h.1 hc
  · exact absurd h.1.symm hc'
  · exact ⟨by rw [← hc, ← hc', h.2.1], h.2.2⟩
  · exact absurd h.2.1 hu
  · exact absurd h.1.symm hc'
  · exact absurd h.2.1.symm hu'
  · -- the brace is the first character after the digits that is none
    have brace (n : Nat) : '\x7d' ∉ hexDigits n :=
      fun hmem ↦ absurd (isAlphanum_of_mem_hexDigits hmem) (by decide)
    have htext : hexDigits c.toNat ++ '\x7d' :: rest = hexDigits c'.toNat ++ '\x7d' :: rest' := by
      simpa using h
    have hsplit := congrArg (List.splitOn '\x7d') htext
    rw [List.splitOn_append_cons_self_of_not_mem (brace _),
      List.splitOn_append_cons_self_of_not_mem (brace _)] at hsplit
    have hdigits := (List.cons.inj hsplit).1
    rw [hdigits] at htext
    exact ⟨Char.toNat_inj.mp (hexDigits_injective hdigits),
      (List.cons.inj (List.append_cancel_left htext)).2⟩

/-! ## Whole texts -/

/-- Characters between double quotes can be told from what stands for them, up to the quote that
ends them. -/
theorem flatMap_escape_append_inj {cs cs' rest rest' : List Char}
    (h : cs.flatMap (escape '"') ++ '"' :: rest = cs'.flatMap (escape '"') ++ '"' :: rest') :
    cs = cs' ∧ rest = rest' := by
  have open_ne (c : Char) (text text' : List Char) : '"' :: text ≠ escape '"' c ++ text' := by
    rcases escape_cases c with ⟨he, -, hc, -⟩ | ⟨e, he, -⟩ | he
    · simp [he, hc.symm]
    · simp [he]
    · simp [he]
  induction cs generalizing cs' with
  | nil =>
    cases cs' with
    | nil => exact ⟨rfl, (List.cons.inj h).2⟩
    | cons c' cs' =>
      rw [List.flatMap_cons, List.append_assoc] at h
      exact absurd h (open_ne c' _ _)
  | cons c cs ih =>
    cases cs' with
    | nil =>
      rw [List.flatMap_cons, List.append_assoc] at h
      exact absurd h.symm (open_ne c _ _)
    | cons c' cs' =>
      rw [List.flatMap_cons, List.flatMap_cons, List.append_assoc, List.append_assoc] at h
      obtain ⟨rfl, htail⟩ := escape_append_inj h
      obtain ⟨rfl, hrest⟩ := ih htail
      exact ⟨rfl, hrest⟩

theorem toList_quote (s : String) :
    (quote s).toList = '"' :: s.toList.flatMap (escape '"') ++ ['"'] :=
  String.toList_ofList

/-- A text can be told from its quoted form, whatever follows that. -/
theorem quote_append_inj {s s' : String} {rest rest' : List Char}
    (h : (quote s).toList ++ rest = (quote s').toList ++ rest') : s = s' ∧ rest = rest' := by
  simp only [toList_quote, List.cons_append, List.append_assoc, List.nil_append,
    List.cons.injEq, true_and] at h
  obtain ⟨hchars, hrest⟩ := flatMap_escape_append_inj h
  exact ⟨String.toList_inj.mp hchars, hrest⟩

/-- A quoted text stands on one line. -/
theorem newline_not_mem_quote (s : String) : '\n' ∉ (quote s).toList := by
  have plain (c : Char) : '\n' ∉ escape '"' c := by
    rcases escape_cases c with ⟨he, -, -, hc⟩ | ⟨e, he, -, -, hn⟩ | he
    · simp [he, hc.symm]
    · simp [he, hn.symm]
    · have hdigits : '\n' ∉ hexDigits c.toNat :=
        fun hmem ↦ absurd (isAlphanum_of_mem_hexDigits hmem) (by decide)
      simp [he, hdigits]
  rw [toList_quote]
  simp [plain]

end RubyLex.Text

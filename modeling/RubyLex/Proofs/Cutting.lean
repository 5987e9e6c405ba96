import RubyLex.Lexeme

/-!
# Cutting, one lexeme at a time

A text is either all blanks, or blanks followed by the lexeme of its first other character.  This
file says what the list of lexemes is in the two cases, and packages the induction that follows the
cuts: every statement about whole texts is proved by `cutInduction`.

The start offsets only matter where offsets are observed.  Everything else is stated about
`tokens`, the lexemes of a text without their offsets.
-/

namespace RubyLex

/-- Every character is a blank. -/
def Blanks (cs : List Char) : Prop :=
  ∀ c ∈ cs, isBlank c = true

instance (cs : List Char) : Decidable (Blanks cs) :=
  List.decidableBAll (isBlank · = true) cs

namespace Blanks

theorem nil : Blanks [] := by
  intro c hc
  cases hc

theorem append {as bs : List Char} (ha : Blanks as) (hb : Blanks bs) : Blanks (as ++ bs) := by
  intro c hc
  rcases List.mem_append.mp hc with hc | hc
  · exact ha c hc
  · exact hb c hc

theorem head {c : Char} {cs : List Char} (h : Blanks (c :: cs)) : isBlank c = true :=
  h c List.mem_cons_self

theorem tail {c : Char} {cs : List Char} (h : Blanks (c :: cs)) : Blanks cs :=
  fun d hd ↦ h d (List.mem_cons_of_mem c hd)

end Blanks

/-- A text is all blanks, or a first character that is no blank stands behind some blanks. -/
theorem blanks_or_lexeme (cs : List Char) :
    Blanks cs ∨ ∃ ws c rest, Blanks ws ∧ isBlank c = false ∧ cs = ws ++ c :: rest := by
  induction cs with
  | nil => exact .inl .nil
  | cons c cs ih =>
    cases hc : isBlank c with
    | false => exact .inr ⟨[], c, cs, .nil, hc, rfl⟩
    | true =>
      have one : Blanks [c] := by
        intro d hd
        rw [List.mem_singleton.mp hd, hc]
      rcases ih with h | ⟨ws, d, rest, hws, hd, rfl⟩
      · exact .inl (one.append h)
      · exact .inr ⟨c :: ws, d, rest, one.append hws, hd, rfl⟩

/-- Induction along the cuts of a text: what holds of blanks, and of a text whenever it holds of
what its first lexeme leaves, holds of every text. -/
@[elab_as_elim]
theorem cutInduction {motive : List Char → Prop}
    (blanks : ∀ ws, Blanks ws → motive ws)
    (lexeme : ∀ ws c rest, Blanks ws → isBlank c = false →
      motive (Cut.first c rest).rest → motive (ws ++ c :: rest))
    (cs : List Char) : motive cs := by
  -- The rest of a cut is no suffix by structure, so the induction is on the length.
  induction hn : cs.length using Nat.strongRecOn generalizing cs with
  | ind n ih =>
    subst hn
    rcases blanks_or_lexeme cs with h | ⟨ws, c, rest, hws, hc, rfl⟩
    · exact blanks cs h
    · refine lexeme ws c rest hws hc (ih _ ?_ _ rfl)
      have hle := Cut.length_rest_le c rest
      simp only [List.length_append, List.length_cons]
      omega

/-! ## The lexemes of a text -/

/-- The token of a cut. -/
def Cut.token (cut : Cut) : Token :=
  ⟨cut.kind, String.ofList cut.text⟩

@[simp] theorem Cut.toList_token (cut : Cut) : cut.token.value.toList = cut.text :=
  String.toList_ofList

namespace Lexeme

theorem list_nil (n : Nat) : list [] n = [] := by
  rw [list]

theorem list_cons_blank {c : Char} (hc : isBlank c = true) (cs : List Char) (n : Nat) :
    list (c :: cs) n = list cs (n + c.utf8Size) := by
  rw [list, if_pos hc]

/-- The first lexeme of a text that starts with no blank. -/
theorem list_cons {c : Char} (hc : isBlank c = false) (rest : List Char) (n : Nat) :
    list (c :: rest) n =
      ⟨(Cut.first c rest).token, n⟩ ::
        list (Cut.first c rest).rest (n + width (Cut.first c rest).text) := by
  rw [list, if_neg (by simp [hc])]
  rfl

/-- Blanks in front only move the offsets. -/
theorem list_blanks_append {ws : List Char} (hws : Blanks ws) (cs : List Char) (n : Nat) :
    list (ws ++ cs) n = list cs (n + width ws) := by
  induction ws generalizing n with
  | nil => rfl
  | cons w ws ih =>
    rw [List.cons_append, list_cons_blank hws.head, ih hws.tail, width_cons, Nat.add_assoc]

theorem list_blanks {ws : List Char} (hws : Blanks ws) (n : Nat) : list ws n = [] := by
  have h := list_blanks_append hws [] n
  rwa [List.append_nil, list_nil] at h

/-- Every lexeme is the cut of the text that stands at its offset. -/
theorem mem_list {l : Lexeme} {pre suf : List Char} (h : l ∈ list suf (width pre)) :
    ∃ before c rest, pre ++ suf = before ++ c :: rest ∧ isBlank c = false ∧
      l = ⟨(Cut.first c rest).token, width before⟩ := by
  induction suf using cutInduction generalizing pre with
  | blanks ws hws =>
    rw [list_blanks hws] at h
    cases h
  | lexeme ws c rest hws hc ih =>
    rw [list_blanks_append hws, list_cons hc, ← width_append, ← width_append] at h
    rcases List.mem_cons.mp h with rfl | h
    · exact ⟨pre ++ ws, c, rest, by simp, hc, rfl⟩
    · obtain ⟨before, d, rest', heq, hd, hl⟩ := ih h
      refine ⟨before, d, rest', ?_, hd, hl⟩
      rw [← heq, List.append_assoc, Cut.text_append_rest, List.append_assoc]

theorem mem_ofSource {l : Lexeme} {s : String} (h : l ∈ ofSource s) :
    ∃ before c rest, s = String.ofList (before ++ c :: rest) ∧ isBlank c = false ∧
      l = ⟨(Cut.first c rest).token, width before⟩ := by
  obtain ⟨before, c, rest, hs, hc, hl⟩ := @mem_list l [] s.toList h
  refine ⟨before, c, rest, ?_, hc, hl⟩
  rw [← hs, List.nil_append, String.ofList_toList]

end Lexeme

/-! ## Tokens without offsets -/

/-- The tokens of a text. -/
def tokens (cs : List Char) : List Token :=
  (Lexeme.list cs 0).map Lexeme.token

/-- The tokens of a text are the same wherever it starts. -/
theorem map_token_list (cs : List Char) (n : Nat) :
    (Lexeme.list cs n).map Lexeme.token = tokens cs := by
  unfold tokens
  induction cs using cutInduction generalizing n with
  | blanks ws hws => rw [Lexeme.list_blanks hws, Lexeme.list_blanks hws]
  | lexeme ws c rest hws hc ih =>
    rw [Lexeme.list_blanks_append hws, Lexeme.list_blanks_append hws, Lexeme.list_cons hc,
      Lexeme.list_cons hc, List.map_cons, List.map_cons, ih, ← ih]

theorem tokenize_eq_tokens (s : String) : tokenize s = tokens s.toList := rfl

@[simp] theorem tokens_nil : tokens [] = [] := by
  rw [tokens, Lexeme.list_nil, List.map_nil]

theorem tokens_blanks_append {ws : List Char} (hws : Blanks ws) (cs : List Char) :
    tokens (ws ++ cs) = tokens cs := by
  rw [tokens, Lexeme.list_blanks_append hws, map_token_list]

theorem tokens_blanks {ws : List Char} (hws : Blanks ws) : tokens ws = [] := by
  rw [tokens, Lexeme.list_blanks hws, List.map_nil]

theorem tokens_cons {c : Char} (hc : isBlank c = false) (rest : List Char) :
    tokens (c :: rest) = (Cut.first c rest).token :: tokens (Cut.first c rest).rest := by
  rw [tokens, Lexeme.list_cons hc, List.map_cons, map_token_list]

/-- Only blanks have no tokens. -/
theorem tokens_eq_nil_iff {cs : List Char} : tokens cs = [] ↔ Blanks cs := by
  constructor
  · intro h
    rcases blanks_or_lexeme cs with hcs | ⟨ws, c, rest, hws, hc, rfl⟩
    · exact hcs
    · rw [tokens_blanks_append hws, tokens_cons hc] at h
      cases h
  · exact tokens_blanks

end RubyLex

import Mathlib
import RubyLex.Proofs.Tiling

/-!
# Tokens of a concatenation

Two texts written one after the other have the tokens of the first and then those of the second,
unless the boundary glues: the first text ends in a token, and the second goes on with it.

A text that ends in a token keeps all its tokens but the last, whatever follows.  The last one is
read again together with what follows, so that the whole question is about one lexeme and one
character.
-/

namespace RubyLex

/-- The last character of the text is no blank. -/
def EndsInToken (cs : List Char) : Prop :=
  ∃ d, cs.getLast? = some d ∧ isBlank d = false

/-! ## One lexeme -/

/-- What follows a cut that leaves something does not change it. -/
theorem Cut.first_append_of_rest_ne_nil {c : Char} (hc : isBlank c = false) {rest : List Char}
    (hne : (first c rest).rest ≠ []) (b : List Char) :
    first c (rest ++ b) =
      ⟨(first c rest).kind, (first c rest).text, (first c rest).rest ++ b⟩ := by
  have hcut := text_append_rest c rest
  have hm := matches_first hc rest
  have hs : (first c rest).kind.Stops (first c rest).text ((first c rest).rest ++ b) :=
    (stops_first c rest).of_head?_eq (List.head?_append_of_ne_nil _ hne)
  obtain ⟨d, ds, hd⟩ := List.exists_cons_of_ne_nil (text_ne_nil c rest)
  rw [hd, List.cons_append] at hcut
  rw [hd] at hm hs ⊢
  obtain ⟨rfl, hds⟩ := List.cons_eq_cons.mp hcut
  rw [← first_append hm hs, ← List.append_assoc, hds]

/-- A lexeme in front of a text is a token of its own just if the text does not go on with it. -/
theorem Token.WellFormed.tokens_append {t : Token} (ht : t.WellFormed) (b : List Char) :
    tokens (t.value.toList ++ b) = t :: tokens b ↔ t.kind.Stops t.value.toList b := by
  have hm : t.kind.Matches t.value.toList := ht
  obtain ⟨c, cs, hv⟩ := List.exists_cons_of_ne_nil hm.ne_nil
  have hc : isBlank c = false := hm.not_blank c (by simp [hv])
  rw [hv] at hm ⊢
  rw [List.cons_append, tokens_cons hc]
  constructor
  · intro h
    have htoken : (Cut.first c (cs ++ b)).token = t := (List.cons_eq_cons.mp h).1
    have hkind : (Cut.first c (cs ++ b)).kind = t.kind := congrArg Token.kind htoken
    have htext : (Cut.first c (cs ++ b)).text = c :: cs := by
      rw [← Cut.toList_token, htoken, hv]
    have hrest : (Cut.first c (cs ++ b)).rest = b := by
      have hcut := Cut.text_append_rest c (cs ++ b)
      rw [htext, ← List.cons_append] at hcut
      exact List.append_cancel_left hcut
    have hs := Cut.stops_first c (cs ++ b)
    rwa [hkind, htext, hrest] at hs
  · intro hs
    have htoken : Cut.token ⟨t.kind, c :: cs, b⟩ = t := by
      rw [Cut.token, ← hv, String.ofList_toList]
    rw [Cut.first_append hm hs, htoken]

/-! ## A text and what follows it -/

section

variable {ws rest : List Char} {c : Char}

theorem endsInToken_lexeme (hc : isBlank c = false) :
    EndsInToken (ws ++ c :: rest) ↔
      (Cut.first c rest).rest = [] ∨ EndsInToken (Cut.first c rest).rest := by
  have hcut := Cut.text_append_rest c rest
  rw [← hcut]
  by_cases hne : (Cut.first c rest).rest = []
  · have hd := List.getLast?_eq_some_getLast (Cut.text_ne_nil c rest)
    have hblank := (Cut.matches_first hc rest).not_blank _ (List.mem_of_getLast? hd)
    have hends : EndsInToken (ws ++ ((Cut.first c rest).text ++ (Cut.first c rest).rest)) :=
      ⟨_, by simp [hne, hd], hblank⟩
    exact iff_of_true hends (.inl hne)
  · rw [EndsInToken, EndsInToken, ← List.append_assoc, List.getLast?_append_of_ne_nil _ hne]
    simp [hne]

theorem tokens_lexeme_append (hws : Blanks ws) (hc : isBlank c = false)
    (hne : (Cut.first c rest).rest ≠ []) (b : List Char) :
    tokens (ws ++ c :: rest ++ b) =
      (Cut.first c rest).token :: tokens ((Cut.first c rest).rest ++ b) := by
  rw [List.append_assoc, List.cons_append, tokens_blanks_append hws, tokens_cons hc,
    Cut.first_append_of_rest_ne_nil hc hne]
  rfl

end

/-- Behind a blank, or at the front of the source, reading starts afresh. -/
theorem tokens_append_of_not_endsInToken {a : List Char} (ha : ¬ EndsInToken a) (b : List Char) :
    tokens (a ++ b) = tokens a ++ tokens b := by
  induction a using cutInduction with
  | blanks ws hws => rw [tokens_blanks_append hws, tokens_blanks hws, List.nil_append]
  | lexeme ws c rest hws hc ih =>
    rw [endsInToken_lexeme hc, not_or] at ha
    rw [tokens_lexeme_append hws hc ha.1, ih ha.2, tokens_blanks_append hws, tokens_cons hc,
      List.cons_append]

/-- A text that ends in a token gives up that token alone to what follows. -/
theorem exists_last_of_endsInToken {a : List Char} (ha : EndsInToken a) :
    ∃ init t, tokens a = init ++ [t] ∧ t.WellFormed ∧
      ∀ b, tokens (a ++ b) = init ++ tokens (t.value.toList ++ b) := by
  induction a using cutInduction with
  | blanks ws hws =>
    obtain ⟨d, hd, hblank⟩ := ha
    rw [hws d (List.mem_of_getLast? hd)] at hblank
    cases hblank
  | lexeme ws c rest hws hc ih =>
    rw [endsInToken_lexeme hc] at ha
    by_cases hne : (Cut.first c rest).rest = []
    · refine ⟨[], (Cut.first c rest).token, ?_, Cut.wellFormed_token hc rest, ?_⟩
      · rw [tokens_blanks_append hws, tokens_cons hc, hne, tokens_nil, List.nil_append]
      · intro b
        have hcut := Cut.text_append_rest c rest
        rw [hne, List.append_nil] at hcut
        rw [Cut.toList_token, hcut, List.append_assoc, tokens_blanks_append hws, List.nil_append]
    · obtain ⟨init, t, htokens, ht, happend⟩ := ih (ha.resolve_left hne)
      refine ⟨(Cut.first c rest).token :: init, t, ?_, ht, ?_⟩
      · rw [tokens_blanks_append hws, tokens_cons hc, htokens, List.cons_append]
      · intro b
        rw [tokens_lexeme_append hws hc hne, happend, List.cons_append]

/-- A lexeme in front of a text is at least the front of the first token there. -/
theorem Token.WellFormed.exists_tokens_append {t : Token} (ht : t.WellFormed) (b : List Char) :
    ∃ u rest, tokens (t.value.toList ++ b) = u :: rest ∧ t.value.toList <+: u.value.toList := by
  have hm : t.kind.Matches t.value.toList := ht
  obtain ⟨c, cs, hv⟩ := List.exists_cons_of_ne_nil hm.ne_nil
  have hc : isBlank c = false := hm.not_blank c (by simp [hv])
  rw [hv] at hm ⊢
  refine ⟨(Cut.first c (cs ++ b)).token, tokens (Cut.first c (cs ++ b)).rest, ?_, ?_⟩
  · rw [List.cons_append, tokens_cons hc]
  · have hlexeme : c :: cs <+: c :: (cs ++ b) := List.prefix_append (c :: cs) b
    have hfront : (Cut.first c (cs ++ b)).text <+: c :: (cs ++ b) :=
      ⟨_, Cut.text_append_rest c (cs ++ b)⟩
    rw [Cut.toList_token]
    -- were the cut shorter, the lexeme would be a longer one than the longest
    refine List.prefix_of_prefix_length_le hlexeme hfront (Nat.le_of_not_lt fun hlt ↦ ?_)
    exact Cut.not_matches_longer hc hlexeme hlt t.kind hm

/-! ## The boundary -/

/-- The first text ends in a token, and the second starts with a character that goes on with it. -/
def Glues (a b : String) : Prop :=
  EndsInToken a.toList ∧ ∃ t c, (tokenize a).getLast? = some t ∧ b.toList.head? = some c ∧
    t.kind.Extends t.value.toList c

theorem tokenize_append_iff (a b : String) :
    tokenize (a ++ b) = tokenize a ++ tokenize b ↔ ¬ Glues a b := by
  simp only [Glues, tokenize_eq_tokens, String.toList_append]
  by_cases ha : EndsInToken a.toList
  · obtain ⟨init, t, htokens, ht, happend⟩ := exists_last_of_endsInToken ha
    have hlast : (init ++ [t]).getLast? = some t := by simp
    rw [happend, htokens, hlast, List.append_assoc, List.append_cancel_left_eq,
      List.singleton_append, ht.tokens_append]
    constructor
    · rintro hs ⟨-, t', c, hlast, hc, he⟩
      obtain rfl : t = t' := Option.some.inj hlast
      exact hs c hc he
    · intro h c hc he
      exact h ⟨ha, t, c, rfl, hc, he⟩
  · exact iff_of_true (tokens_append_of_not_endsInToken ha _) fun h ↦ ha h.1

/-- Blanks between two texts separate them, and blanks at the end of a text add nothing. -/
theorem tokenize_append_gap (a : String) {w : Gap} {b : String} (h : w.text ≠ "" ∨ b = "") :
    tokenize (a ++ (w.text ++ b)) = tokenize a ++ tokenize b := by
  have hglue : ¬ Glues a (w.text ++ b) := by
    rintro ⟨-, t, c, -, hc, he⟩
    refine Kind.not_extends_of_isBlank (w.blanks c ?_) he
    rw [String.toList_append] at hc
    rcases h with hw | rfl
    · rw [List.head?_append_of_ne_nil _ (mt String.toList_eq_nil_iff.mp hw)] at hc
      exact List.mem_of_head? hc
    · simpa using List.mem_of_head? hc
  have hblanks : tokenize (w.text ++ b) = tokenize b := by
    rw [tokenize_eq_tokens, String.toList_append, tokens_blanks_append w.blanks,
      ← tokenize_eq_tokens]
  rw [(tokenize_append_iff a (w.text ++ b)).mpr hglue, hblanks]

/-- The tokens of two texts one after the other are theirs in order just if the boundary does not
glue.  With any blanks between them they always are. -/
theorem tokenize_concatenation (a b : String) :
    (tokenize (a ++ b) = tokenize a ++ tokenize b ↔ ¬ Glues a b) ∧
    ∀ w : Gap, w.text ≠ "" → tokenize (a ++ w.text ++ b) = tokenize a ++ tokenize b := by
  refine ⟨tokenize_append_iff a b, ?_⟩
  intro w hw
  rw [String.append_assoc, tokenize_append_gap a (.inl hw)]

/-- A second point does not go on with a number, a first one does. -/
theorem tokenize_concatenation_point :
    tokenize ("1." ++ ".5") = tokenize "1." ++ tokenize ".5" ∧
    tokenize ("1" ++ ".5") ≠ tokenize "1" ++ tokenize ".5" ∧
    tokenize ("1" ++ "\t" ++ ".5") = tokenize "1" ++ tokenize ".5" := by
  refine ⟨?_, ?_, ?_⟩
  · rw [(tokenize_concatenation "1." ".5").1]
    rintro ⟨-, t, c, ht, hc, he⟩
    obtain rfl : ⟨.number, "1."⟩ = t := Option.some.inj (Eq.trans (by cbv) ht)
    obtain rfl : '.' = c := Option.some.inj (Eq.trans (by decide) hc)
    rcases Kind.extends_number_iff.mp he with h | ⟨h, -⟩
    · exact absurd (Grammar.digit_iff.mp h) (by decide)
    · exact h (by decide)
  · rw [ne_eq, (tokenize_concatenation "1" ".5").1, not_not]
    refine ⟨⟨'1', by decide, by decide⟩, ⟨.number, "1"⟩, '.', by cbv, by decide, ?_⟩
    exact Kind.extends_number_iff.mpr (.inr ⟨by decide, rfl⟩)
  · exact (tokenize_concatenation "1" ".5").2 ⟨"\t", by decide⟩ (by decide)

/-! ## The last token -/

theorem not_endsInToken_of_blank {cs : List Char}
    (h : cs = [] ∨ ∃ d, cs.getLast? = some d ∧ isBlank d = true) : ¬ EndsInToken cs := by
  rintro ⟨d, hd, hblank⟩
  rcases h with rfl | ⟨d', hd', hblank'⟩
  · cases hd
  · obtain rfl : d = d' := Option.some.inj (hd.symm.trans hd')
    rw [hblank] at hblank'
    cases hblank'

/-- What follows a text changes at most its last token.  A text that is empty or ends in a blank
keeps all its tokens.  Any other keeps all but the last; the next token goes on with that one, and
reading from its start, with what follows, gives all that is new. -/
theorem append_changes_last_token_only (a b : String) :
    ((a = "" ∨ ∃ d, a.toList.getLast? = some d ∧ isBlank d = true) →
      tokenize a <+: tokenize (a ++ b)) ∧
    (EndsInToken a.toList →
      ∃ init t u rest, tokenize a = init ++ [t] ∧ tokenize (a ++ b) = init ++ u :: rest ∧
        t.value.toList <+: u.value.toList ∧
        tokenize (a ++ b) = init ++ tokenize (t.value ++ b)) := by
  simp only [tokenize_eq_tokens, String.toList_append]
  constructor
  · rw [← String.toList_eq_nil_iff]
    intro h
    rw [tokens_append_of_not_endsInToken (not_endsInToken_of_blank h)]
    exact List.prefix_append _ _
  · intro h
    obtain ⟨init, t, htokens, ht, happend⟩ := exists_last_of_endsInToken h
    obtain ⟨u, rest, hu, hprefix⟩ := ht.exists_tokens_append b.toList
    refine ⟨init, t, u, rest, htokens, ?_, hprefix, happend b.toList⟩
    rw [happend, hu]

/-- A digit goes on with a number that ends in its point, and with nothing behind a blank. -/
theorem append_changes_last_token_only_point :
    tokenize "x 1. " <+: tokenize ("x 1. " ++ "5y") ∧
    ∃ init t u rest, tokenize "x 1." = init ++ [t] ∧
      tokenize ("x 1." ++ "5y") = init ++ u :: rest ∧ t.value.toList <+: u.value.toList ∧
      tokenize ("x 1." ++ "5y") = init ++ tokenize (t.value ++ "5y") := by
  constructor
  · exact (append_changes_last_token_only "x 1. " "5y").1 (.inr ⟨' ', by decide, by decide⟩)
  · exact (append_changes_last_token_only "x 1." "5y").2 ⟨'.', by decide, by decide⟩

end RubyLex

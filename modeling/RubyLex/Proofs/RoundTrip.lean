import RubyLex.Proofs.Concatenation

/-!
# Reading back what was written

Tokens written out with blanks between them are read back as they were, whatever the blanks are.
Neighbours need at least one blank between them; before the first token and after the last one
there may be none.

The tokens of a source are such tokens, so that writing them with single spaces and reading them
again changes nothing.
-/

namespace RubyLex

/-- There is a blank between any two neighbours. -/
def Layout.Separated (layout : Layout) : Prop :=
  ∀ p ∈ layout.row.dropLast, p.2.text ≠ ""

instance (layout : Layout) : Decidable layout.Separated :=
  List.decidableBAll (fun p : Token × Gap ↦ p.2.text ≠ "") layout.row.dropLast

theorem tokenize_empty : tokenize "" = [] := by
  rw [tokenize_eq_tokens, String.toList_empty, tokens_nil]

/-- A token alone is read back. -/
theorem Token.WellFormed.tokenize_value {t : Token} (ht : t.WellFormed) :
    tokenize t.value = [t] := by
  have h := (ht.tokens_append []).mpr (Kind.stops_nil _ _)
  rwa [List.append_nil, tokens_nil] at h

theorem tokenize_row {row : List (Token × Gap)} (hsep : ∀ p ∈ row.dropLast, p.2.text ≠ "")
    (hrow : ∀ p ∈ row, p.1.WellFormed) :
    tokenize (String.join (row.map fun (t, gap) ↦ t.value ++ gap.text)) = row.map Prod.fst := by
  induction row with
  | nil => exact tokenize_empty
  | cons p row ih =>
    obtain ⟨t, gap⟩ := p
    have ht : t.WellFormed := hrow (t, gap) List.mem_cons_self
    have hgap : gap.text ≠ "" ∨
        String.join (row.map fun (t, gap) ↦ t.value ++ gap.text) = "" := by
      cases row with
      | nil => exact .inr rfl
      | cons q row => exact .inl (hsep (t, gap) List.mem_cons_self)
    have hsep' : ∀ p ∈ row.dropLast, p.2.text ≠ "" := by
      intro p hp
      cases row with
      | nil => cases hp
      | cons q row => exact hsep p (List.mem_cons_of_mem _ hp)
    rw [List.map_cons, List.map_cons, String.join_cons, String.append_assoc,
      tokenize_append_gap _ hgap, ht.tokenize_value,
      ih hsep' fun p hp ↦ hrow p (List.mem_cons_of_mem _ hp)]
    rfl

/-- The row of a layout is read back, and the blanks before it add no token. -/
theorem tokenize_layout {layout : Layout} (hsep : layout.Separated)
    (hrow : ∀ t ∈ layout.tokens, t.WellFormed) : tokenize layout.text = layout.tokens := by
  rw [Layout.text, tokenize_eq_tokens, String.toList_append,
    tokens_blanks_append layout.lead.blanks]
  exact tokenize_row hsep fun p hp ↦ hrow p.1 (List.mem_map_of_mem hp)

theorem tokenize_spaced {ts : List Token} (hts : ∀ t ∈ ts, t.WellFormed) :
    tokenize (" ".intercalate (ts.map Token.value)) = ts := by
  induction ts with
  | nil => exact tokenize_empty
  | cons t ts ih =>
    have ht : t.WellFormed := hts t List.mem_cons_self
    have ih := ih fun u hu ↦ hts u (List.mem_cons_of_mem t hu)
    cases ts with
    | nil => exact ht.tokenize_value
    | cons u ts =>
      have hspace : (Gap.mk " " (by decide)).text ≠ "" := by decide
      rw [List.map_cons, List.map_cons, String.intercalate_cons_cons, String.append_assoc,
        tokenize_append_gap t.value (.inl hspace), ht.tokenize_value, List.singleton_append]
      exact congrArg (t :: ·) ih

/-- Reading undoes writing: well-formed tokens with a blank between neighbours are read back,
whatever the blanks.  So are the tokens of any source, written with single spaces. -/
theorem tokenize_written :
    (∀ layout : Layout, layout.Separated → (∀ t ∈ layout.tokens, t.WellFormed) →
      tokenize layout.text = layout.tokens) ∧
    ∀ s : String, tokenize (" ".intercalate ((tokenize s).map Token.value)) = tokenize s := by
  refine ⟨fun layout hsep hts ↦ tokenize_layout hsep hts, ?_⟩
  intro s
  exact tokenize_spaced fun t ht ↦ wellFormed_of_mem_tokenize ht

/-- A word, an operator, a number that ends in its point, a point, and a character without a rule
at the very end. -/
theorem tokenize_written_mixed :
    tokenize "\na +\t\r5. .  λ" =
      [⟨.word, "a"⟩, ⟨.plus, "+"⟩, ⟨.number, "5."⟩, ⟨.dot, "."⟩, ⟨.char, "λ"⟩] :=
  tokenize_written.1
    ⟨⟨"\n", by decide⟩,
      [(⟨.word, "a"⟩, ⟨" ", by decide⟩), (⟨.plus, "+"⟩, ⟨"\t\r", by decide⟩),
        (⟨.number, "5."⟩, ⟨" ", by decide⟩), (⟨.dot, "."⟩, ⟨"  ", by decide⟩),
        (⟨.char, "λ"⟩, ⟨"", by decide⟩)]⟩
    (by decide) (by decide)

end RubyLex

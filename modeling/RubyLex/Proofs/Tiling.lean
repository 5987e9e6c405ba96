import RubyLex.Proofs.LongestMatch

/-!
# Tokens tile their source

Nothing of a source is lost: it is its tokens in order with blanks before, between and after them.
A `Layout` is such an arrangement, and every source is one.  The byte offsets that the streaming
lexer records are the places of the tokens in it.
-/

namespace RubyLex

/-- A text of blanks, which may be empty. -/
structure Gap where
  text : String
  blanks : Blanks text.toList

/-- Tokens written out: the gap before the first, and each token with the gap after it. -/
structure Layout where
  lead : Gap
  row : List (Token × Gap)

namespace Layout

def tokens (layout : Layout) : List Token :=
  layout.row.map Prod.fst

def text (layout : Layout) : String :=
  layout.lead.text ++ String.join (layout.row.map fun (t, gap) ↦ t.value ++ gap.text)

end Layout

/-- A text is its tokens and gaps. -/
theorem exists_layout (cs : List Char) :
    ∃ layout : Layout, layout.text = String.ofList cs ∧ layout.tokens = tokens cs := by
  induction cs using cutInduction with
  | blanks ws hws =>
    refine ⟨⟨⟨String.ofList ws, by simpa using hws⟩, []⟩, ?_, ?_⟩
    · simp [Layout.text]
    · rw [tokens_blanks hws]
      rfl
  | lexeme ws c rest hws hc ih =>
    obtain ⟨layout, htext, htokens⟩ := ih
    refine ⟨⟨⟨String.ofList ws, by simpa using hws⟩,
      ((Cut.first c rest).token, layout.lead) :: layout.row⟩, ?_, ?_⟩
    · have hcut := Cut.text_append_rest c rest
      rw [Layout.text] at htext
      rw [Layout.text, List.map_cons, String.join_cons, String.append_assoc, htext, ← hcut,
        String.ofList_append, String.ofList_append]
      rfl
    · rw [tokens_blanks_append hws, tokens_cons hc, ← htokens]
      rfl

/-- The values of the tokens are the characters that are no blanks, in order. -/
theorem flatMap_value_tokens (cs : List Char) :
    (tokens cs).flatMap (fun t ↦ t.value.toList) = cs.filter fun c ↦ !isBlank c := by
  have filter_blanks {ws : List Char} (hws : Blanks ws) :
      ws.filter (fun c ↦ !isBlank c) = [] := by
    rw [List.filter_eq_nil_iff]
    intro c hc
    simp [hws c hc]
  induction cs using cutInduction with
  | blanks ws hws => rw [tokens_blanks hws, filter_blanks hws, List.flatMap_nil]
  | lexeme ws c rest hws hc ih =>
    have htext : (Cut.first c rest).text.filter (fun c ↦ !isBlank c) = (Cut.first c rest).text := by
      rw [List.filter_eq_self]
      intro d hd
      simp [(Cut.matches_first hc rest).not_blank d hd]
    rw [tokens_blanks_append hws, tokens_cons hc, List.flatMap_cons, ih, Cut.toList_token,
      List.filter_append, filter_blanks hws, List.nil_append, ← Cut.text_append_rest c rest,
      List.filter_append, htext]

/-! ## Spans -/

/-- The span lies in the source between two character boundaries, and what it cuts out is the
value of its token. -/
structure Span.In (span : Span) (s : String) : Prop where
  start_valid : String.Pos.Raw.isValid s ⟨span.start⟩ = true
  stop_valid : String.Pos.Raw.isValid s ⟨span.stop⟩ = true
  start_lt_stop : span.start < span.stop
  extract_eq : String.Pos.Raw.extract s ⟨span.start⟩ ⟨span.stop⟩ = span.token.value

namespace Lexeme

theorem span_in {l : Lexeme} {s : String} (h : l ∈ ofSource s) : l.span.In s := by
  obtain ⟨before, c, rest, rfl, hc, rfl⟩ := mem_ofSource h
  have hstop : (Lexeme.span ⟨(Cut.first c rest).token, width before⟩).stop =
      width (before ++ (Cut.first c rest).text) := by
    rw [width_append, ← Cut.utf8ByteSize_token]
    rfl
  have hpos : 0 < width (Cut.first c rest).text :=
    Nat.lt_of_lt_of_le (List.length_pos_iff.mpr (Cut.text_ne_nil c rest)) (length_le_width _)
  rw [← Cut.text_append_rest c rest, ← List.append_assoc]
  refine ⟨?_, ?_, ?_, ?_⟩
  · rw [List.append_assoc]
    exact isValid_width _ _
  · rw [hstop]
    exact isValid_width _ _
  · rw [hstop, width_append]
    exact Nat.lt_add_of_pos_right hpos
  · rw [hstop]
    exact extract_width before (Cut.first c rest).text (Cut.first c rest).rest

theorem le_start_of_mem_list {l : Lexeme} {cs : List Char} {n : Nat} (h : l ∈ list cs n) :
    n ≤ l.start := by
  induction cs using cutInduction generalizing n with
  | blanks ws hws =>
    rw [list_blanks hws] at h
    cases h
  | lexeme ws c rest hws hc ih =>
    rw [list_blanks_append hws, list_cons hc] at h
    rcases List.mem_cons.mp h with rfl | h
    · exact Nat.le_add_right _ _
    · have hle := ih h
      omega

/-- Each lexeme ends before the next one starts. -/
theorem pairwise_span_list (cs : List Char) (n : Nat) :
    ((list cs n).map span).Pairwise fun a b ↦ a.stop ≤ b.start := by
  induction cs using cutInduction generalizing n with
  | blanks ws hws =>
    rw [list_blanks hws]
    exact .nil
  | lexeme ws c rest hws hc ih =>
    rw [list_blanks_append hws, list_cons hc, List.map_cons, List.pairwise_cons]
    refine ⟨?_, ih _⟩
    intro b hb
    obtain ⟨l, hl, rfl⟩ := List.mem_map.mp hb
    rw [← Cut.utf8ByteSize_token] at hl
    exact le_start_of_mem_list hl

end Lexeme

/-- A source is its tokens with blanks around them.  The lexer that reads it hands out exactly these
tokens, each cut out of the source between the offsets at which the cursor began and stopped, one
after the other. -/
theorem tokens_tile_source (s : String) :
    (∃ layout : Layout, layout.text = s ∧ layout.tokens = tokenize s) ∧
    (∀ t ∈ tokenize s, t.value ≠ "" ∧ ∀ c ∈ t.value.toList, isBlank c = false) ∧
    (∃ spans last, (Lexer.ofSource s).Produces spans last ∧ last.Exhausted ∧
      spans.map Span.token = tokenize s ∧ (∀ span ∈ spans, span.In s) ∧
      spans.Pairwise fun a b ↦ a.stop ≤ b.start) ∧
    (Lexer.ofSource s).toList.map (List.map Lexeme.token) = .ok (tokenize s) ∧
    String.join ((tokenize s).map Token.value) =
      String.ofList (s.toList.filter fun c ↦ !isBlank c) := by
  refine ⟨?_, ?_, ?_, ?_, ?_⟩
  · obtain ⟨layout, htext, htokens⟩ := exists_layout s.toList
    exact ⟨layout, htext.trans String.ofList_toList, htokens⟩
  · intro t ht
    have hm : t.kind.Matches t.value.toList := wellFormed_of_mem_tokenize ht
    exact ⟨fun hempty ↦ hm.ne_nil (String.toList_eq_nil_iff.mpr hempty), hm.not_blank⟩
  · obtain ⟨last, hlast, hend⟩ := Lexer.produces_list (Cursor.at_ofSource s)
    refine ⟨_, last, hlast, hend, ?_, ?_, Lexeme.pairwise_span_list _ _⟩
    · rw [List.map_map]
      rfl
    · intro span hspan
      obtain ⟨l, hl, rfl⟩ := List.mem_map.mp hspan
      exact Lexeme.span_in hl
  · rw [Lexer.toList_ofSource]
    rfl
  · rw [← String.toList_inj, String.toList_join, List.flatMap_map, String.toList_ofList]
    exact flatMap_value_tokens s.toList

end RubyLex

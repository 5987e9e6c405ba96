import RubyLex.Proofs.Stream

/-!
# Calls to a lexer

A lexer is asked for one token after the other, directly or as an iterator, and at any point what
is left may be taken at once.  Between two calls its cursor remembers a character and a flag that
depend on what was read, so the states that calls lead to are no fresh states.  They agree with
them in all that is handed out: only the unread text counts, and `Cursor.At` says what it is.
-/

namespace RubyLex

namespace Lexer

/-- The two ways to ask for a token. -/
inductive Call where
  /-- By the lexer's own function. -/
  | nextToken
  /-- As an iterator. -/
  | next
deriving DecidableEq, Repr

/-- The next token without its offset. -/
def nextToken (lexer : Lexer) : Except Cursor.Fault (Option Token × Lexer) :=
  lexer.next.map fun (lexeme?, after) ↦ (lexeme?.map Lexeme.token, after)

/-- The answer to a call and the lexer after it. The iterator hands out the next token too. -/
def call (lexer : Lexer) : Call → Except Cursor.Fault (Option Token × Lexer)
  | .nextToken => lexer.nextToken
  | .next => lexer.nextToken

/-- The answers to calls one after the other, and the lexer after the last. -/
def calls (lexer : Lexer) : List Call → Except Cursor.Fault (List (Option Token) × Lexer)
  | [] => .ok ([], lexer)
  | c :: cs => do
    let (token?, after) ← lexer.call c
    let (tokens, last) ← after.calls cs
    return (token? :: tokens, last)

/-- The tokens that are left. -/
def tokens (lexer : Lexer) : Except Cursor.Fault (List Token) :=
  lexer.toList.map (List.map Lexeme.token)

variable {lexer : Lexer} {pre suf : List Char}

/-- One call takes the first token off the unread text, or answers that there is none. -/
theorem call_at (h : lexer.cursor.At pre suf) (c : Call) :
    ∃ after pre' suf', lexer.call c = .ok ((RubyLex.tokens suf).head?, after) ∧
      after.cursor.At pre' suf' ∧ pre' ++ suf' = pre ++ suf ∧
      RubyLex.tokens suf' = (RubyLex.tokens suf).tail := by
  have hcall : lexer.call c = lexer.nextToken := by cases c <;> rfl
  rw [hcall, nextToken]
  rcases blanks_or_lexeme suf with hws | ⟨ws, d, rest, hws, hd, rfl⟩
  · obtain ⟨after, hnext, hat⟩ := next_blanks h hws
    refine ⟨⟨after⟩, pre ++ suf, [], ?_, hat, by simp, ?_⟩
    · rw [hnext, tokens_blanks hws]
      rfl
    · rw [tokens_blanks hws, tokens_nil, List.tail_nil]
  · obtain ⟨after, hnext, hat⟩ := next_lexeme h hws hd
    refine ⟨⟨after⟩, _, _, ?_, hat, ?_, ?_⟩
    · rw [hnext, tokens_blanks_append hws, tokens_cons hd]
      rfl
    · rw [List.append_assoc, Cut.text_append_rest, List.append_assoc]
    · rw [tokens_blanks_append hws, tokens_cons hd, List.tail_cons]

/-- The answers to any calls are the tokens of the unread text in order, then none for ever. -/
theorem calls_at (h : lexer.cursor.At pre suf) (cs : List Call) :
    ∃ last pre' suf',
      lexer.calls cs = .ok ((List.range cs.length).map ((RubyLex.tokens suf)[·]?), last) ∧
      last.cursor.At pre' suf' ∧ pre' ++ suf' = pre ++ suf ∧
      RubyLex.tokens suf' = (RubyLex.tokens suf).drop cs.length := by
  induction cs generalizing lexer pre suf with
  | nil => exact ⟨lexer, pre, suf, rfl, h, rfl, rfl⟩
  | cons c cs ih =>
    obtain ⟨after, pre₁, suf₁, hcall, hat₁, happend₁, htokens₁⟩ := call_at h c
    obtain ⟨last, pre₂, suf₂, hcalls, hat₂, happend₂, htokens₂⟩ := ih hat₁
    refine ⟨last, pre₂, suf₂, ?_, hat₂, happend₂.trans happend₁, ?_⟩
    · rw [calls, hcall]
      simp only [bind, Except.bind, hcalls, htokens₁]
      rw [List.length_cons, List.range_succ_eq_map, List.map_cons, List.map_map,
        List.head?_eq_getElem?]
      simp [Function.comp_def, pure, Except.pure]
    · rw [htokens₂, htokens₁, List.drop_tail, List.length_cons]

/-- What is left at any point is the tokens of the unread text. -/
theorem tokens_at (h : lexer.cursor.At pre suf) : lexer.tokens = .ok (RubyLex.tokens suf) := by
  have hbound : suf.length ≤ lexer.cursor.unread := by
    rw [h.unread_eq]
    exact length_le_width suf
  rw [tokens, toList, take_at h hbound]
  exact congrArg Except.ok (map_token_list suf (width pre))

theorem at_ofSource (s : String) : (ofSource s).cursor.At [] s.toList :=
  Cursor.at_ofSource s

theorem tokens_ofSource (s : String) : (ofSource s).tokens = .ok (tokenize s) :=
  tokens_at (at_ofSource s)

/-- Whatever calls are made, the source stays and the tokens of the unread text are those that were
not handed out. -/
theorem calls_ofSource (s : String) (cs : List Call) :
    ∃ lexer pre suf,
      (ofSource s).calls cs = .ok ((List.range cs.length).map ((tokenize s)[·]?), lexer) ∧
      lexer.cursor.At pre suf ∧ lexer.source = s ∧
      RubyLex.tokens suf = (tokenize s).drop cs.length := by
  obtain ⟨lexer, pre, suf, hcalls, hat, happend, htokens⟩ := calls_at (at_ofSource s) cs
  refine ⟨lexer, pre, suf, hcalls, hat, ?_, htokens⟩
  rw [source, hat.source_eq, happend, List.nil_append, String.ofList_toList]

end Lexer

/-- A lexer hands out the tokens of its source one by one, however it is asked, and then none for
ever.  What is left at any point are the other tokens, and those are also the tokens of the unread
text as a source of its own. -/
theorem calls_agree_with_tokenize (s : String) (cs : List Lexer.Call) :
    ∃ lexer : Lexer,
      (Lexer.ofSource s).calls cs =
        .ok ((List.range cs.length).map fun i ↦ (tokenize s)[i]?, lexer) ∧
      lexer.source = s ∧
      lexer.tokens = .ok ((tokenize s).drop (min cs.length (tokenize s).length)) ∧
      lexer.tokens = .ok (tokenize lexer.cursor.remaining) ∧
      lexer.tokens = (Lexer.ofSource lexer.cursor.remaining).tokens := by
  obtain ⟨lexer, pre, suf, hcalls, hat, hsource, htokens⟩ := Lexer.calls_ofSource s cs
  have hremaining : tokens suf = tokenize lexer.cursor.remaining := by
    rw [hat.remaining_eq, tokenize_eq_tokens, String.toList_ofList]
  refine ⟨lexer, hcalls, hsource, ?_, ?_, ?_⟩
  · rw [Lexer.tokens_at hat, htokens]
    rcases Nat.le_total cs.length (tokenize s).length with hle | hle
    · rw [Nat.min_eq_left hle]
    · rw [Nat.min_eq_right hle, List.drop_of_length_le hle, List.drop_length]
  · rw [Lexer.tokens_at hat, hremaining]
  · rw [Lexer.tokens_at hat, Lexer.tokens_ofSource, hremaining]

end RubyLex

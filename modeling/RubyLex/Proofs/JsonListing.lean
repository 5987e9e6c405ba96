import Mathlib.Data.List.Forall2
import RubyLex.Listing
import RubyLex.Proofs.JsonGrammar

/-!
# Reading JSON listings back

A document that is laid out over lines is read by the grammar as what it was made of (`Prints`),
whatever comes after it.  This is shown for strings, and for arrays and objects whose items and
fields are read back, and so for listings.  The grammar reads a text in one way at most, and the
name of a kind tells the kind, so that listings with the same text are the same listings.
-/

namespace RubyLex

open JsonText

namespace Json

variable {level : Nat} {rest : List Char}

theorem skips_newline (level : Nat) (rest : List Char) : Skips (newline level ++ rest) rest := by
  refine .cons rfl ?_
  induction 2 * level with
  | zero => exact .nil rest
  | succ n ih => exact .cons rfl ih

/-! ### Strings -/

theorem hexValue?_hexDigit {n : Nat} (hn : n < 16) : Toml.hexValue? (hexDigit n) = some n := by
  revert n
  decide

/-- The four digits that are written for a control character. -/
theorem codeUnit?_hexDigits {n : Nat} (hn : n < 0x20) (text : List Char) :
    codeUnit? ('0' :: '0' :: hexDigit (n / 16) :: hexDigit (n % 16) :: text) = some (n, text) := by
  have hzero : Toml.hexValue? '0' = some 0 := rfl
  have hhigh := hexValue?_hexDigit (n := n / 16) (by omega)
  have hlow := hexValue?_hexDigit (n := n % 16) (by omega)
  simp only [codeUnit?, Toml.hexNumber?, hzero, hhigh, hlow, Option.bind_some]
  congr 2
  omega

/-- However a character is written, it is read as itself. -/
theorem characters_escape (c : Char) {text cs : List Char} (h : Characters text cs rest) :
    Characters (escape c ++ text) (c :: cs) rest := by
  unfold escape
  split_ifs with hquote hbackslash hb hf hn hr ht hcontrol
  · subst hquote
    exact .escape rfl h
  · subst hbackslash
    exact .escape rfl h
  · subst hb
    exact .escape rfl h
  · subst hf
    exact .escape rfl h
  · subst hn
    exact .escape rfl h
  · subst hr
    exact .escape rfl h
  · subst ht
    exact .escape rfl h
  · have hunit := Characters.unit (codeUnit?_hexDigits hcontrol text) (.inl (by omega)) h
    rwa [Char.ofNat_toNat] at hunit
  · exact .plain (by simp [isPlain, hquote, hbackslash]; omega) h

theorem characters_flatMap_escape (cs rest : List Char) :
    Characters (cs.flatMap escape ++ '"' :: rest) cs rest := by
  induction cs with
  | nil => exact .close rest
  | cons c cs ih =>
    rw [List.flatMap_cons, List.append_assoc]
    exact characters_escape c ih

/-! ### Documents -/

/-- A document that is read as a value, whatever comes after its text. -/
def Prints (level : Nat) (j : Json) (v : Value) : Prop :=
  ∀ rest, Reads (j.pretty level ++ rest) (.value v) rest

theorem prints_string (level : Nat) (s : String) : Prints level (.string s) (.string s) := by
  intro rest
  have h := Reads.string (characters_flatMap_escape s.toList rest)
  rw [String.ofList_toList] at h
  simpa [pretty, quote] using h

theorem reads_items {j : Json} {js : List Json} {v : Value} {vs : List Value}
    (hj : Prints (level + 1) j v) (hjs : List.Forall₂ (Prints (level + 1)) js vs)
    (rest : List Char) :
    Reads (newline (level + 1) ++ pretty (level + 1) j ++ prettyItems level js ++ rest)
      (.items (v :: vs)) rest := by
  induction hjs generalizing j v with
  | nil =>
    simp only [prettyItems, List.append_assoc]
    exact .lastItem (skips_newline _ _) (hj _) (skips_newline _ _)
  | cons hk _ ih =>
    simp only [prettyItems, List.append_assoc, List.cons_append]
    refine .item (skips_newline _ _) (hj _) (.nil _) ?_
    simpa only [List.append_assoc] using ih hk

theorem prints_array {js : List Json} {vs : List Value}
    (h : List.Forall₂ (Prints (level + 1)) js vs) : Prints level (.array js) (.array vs) := by
  intro rest
  cases h with
  | nil => exact .emptyArray (.nil _)
  | cons hj hjs =>
    simp only [pretty, List.cons_append]
    exact .array (reads_items hj hjs rest)

/-- A field that is read as a member. -/
def PrintsField (level : Nat) (f : String × Json) (m : String × Value) : Prop :=
  f.1 = m.1 ∧ Prints level f.2 m.2

theorem reads_members {f : String × Json} {fs : List (String × Json)} {m : String × Value}
    {ms : List (String × Value)} (hf : PrintsField (level + 1) f m)
    (hfs : List.Forall₂ (PrintsField (level + 1)) fs ms) (rest : List Char) :
    Reads (newline (level + 1) ++ quote f.1 ++ [':', ' '] ++ pretty (level + 1) f.2 ++
      prettyFields level fs ++ rest) (.members (m :: ms)) rest := by
  induction hfs generalizing f m with
  | nil =>
    obtain ⟨name, j⟩ := f
    obtain ⟨name', v⟩ := m
    obtain ⟨rfl, hv⟩ := hf
    have h := Reads.lastMember (skips_newline (level + 1) _)
      (characters_flatMap_escape name.toList _) (.nil _) (.cons (c := ' ') rfl (.nil _)) (hv _)
      (skips_newline level ('\x7d' :: rest))
    rw [String.ofList_toList] at h
    simpa [prettyFields, quote] using h
  | cons hg _ ih =>
    obtain ⟨name, j⟩ := f
    obtain ⟨name', v⟩ := m
    obtain ⟨rfl, hv⟩ := hf
    have h := Reads.member (skips_newline (level + 1) _)
      (characters_flatMap_escape name.toList _) (.nil _) (.cons (c := ' ') rfl (.nil _)) (hv _)
      (.nil _) (ih hg)
    rw [String.ofList_toList] at h
    simpa [prettyFields, quote] using h

theorem prints_object {fs : List (String × Json)} {ms : List (String × Value)}
    (h : List.Forall₂ (PrintsField (level + 1)) fs ms) :
    Prints level (.object fs) (.object ms) := by
  intro rest
  cases h with
  | nil => exact .emptyObject (.nil _)
  | cons hf hfs =>
    simp only [pretty, List.cons_append]
    exact .object (reads_members hf hfs rest)

end Json

/-! ## Listings -/

/-- What the JSON text of a token says. -/
def Token.jsonValue (t : Token) : Value :=
  .object [("type", .string t.kind.name), ("value", .string t.value)]

/-- What the JSON text of a listing says. -/
def Listing.jsonValue (l : Listing) : Value :=
  .object [("file", .string l.name), ("tokens", .array (l.tokens.map Token.jsonValue))]

theorem Token.prints_toJson (level : Nat) (t : Token) : t.toJson.Prints level t.jsonValue :=
  Json.prints_object
    (.cons ⟨rfl, Json.prints_string _ _⟩ (.cons ⟨rfl, Json.prints_string _ _⟩ .nil))

theorem Listing.prints_toJson (level : Nat) (l : Listing) : l.toJson.Prints level l.jsonValue := by
  have htokens : List.Forall₂ (Json.Prints (level + 2)) (l.tokens.map Token.toJson)
      (l.tokens.map Token.jsonValue) := by
    rw [List.forall₂_map_left_iff, List.forall₂_map_right_iff, List.forall₂_same]
    exact fun t _ ↦ t.prints_toJson _
  exact Json.prints_object
    (.cons ⟨rfl, Json.prints_string _ _⟩ (.cons ⟨rfl, Json.prints_array htokens⟩ .nil))

theorem Listing.prints_array_toJson (ls : List Listing) :
    (Json.array (ls.map toJson)).Prints 0 (.array (ls.map jsonValue)) := by
  refine Json.prints_array ?_
  rw [List.forall₂_map_left_iff, List.forall₂_map_right_iff, List.forall₂_same]
  exact fun l _ ↦ l.prints_toJson _

theorem Kind.name_injective : Function.Injective name := by
  intro k k' h
  simpa [ofName?_name] using congrArg ofName? h

theorem Token.jsonValue_injective : Function.Injective jsonValue := by
  rintro ⟨kind, value⟩ ⟨kind', value'⟩ h
  simp only [jsonValue, Value.object.injEq, List.cons.injEq, Prod.mk.injEq, Value.string.injEq,
    true_and, and_true] at h
  rw [Kind.name_injective h.1, h.2]

theorem Listing.jsonValue_injective : Function.Injective jsonValue := by
  rintro ⟨name, tokens⟩ ⟨name', tokens'⟩ h
  simp only [jsonValue, Value.object.injEq, List.cons.injEq, Prod.mk.injEq, Value.string.injEq,
    Value.array.injEq, true_and, and_true] at h
  rw [h.1, Token.jsonValue_injective.list_map h.2]

/-- The JSON text of some listings is one value of the grammar and a line feed, read in one way
only: as the names, kinds and texts that were listed. So it tells the listings. -/
theorem json_listing_reads_back (ls : List Listing) :
    (∃ text : String, Listing.render .json ls = text ++ "\n" ∧
      ∀ v, Reads text.toList (.value v) [] ↔ v = .array (ls.map Listing.jsonValue)) ∧
    (∀ v, Document (Listing.render .json ls).toList v ↔ v = .array (ls.map Listing.jsonValue)) ∧
    ∀ ls', Listing.render .json ls' = Listing.render .json ls ↔ ls' = ls := by
  have hdocument (ls : List Listing) :
      Document (Listing.render .json ls).toList (.array (ls.map Listing.jsonValue)) := by
    refine ⟨_, ['\n'], .nil _, ?_, .cons rfl (.nil [])⟩
    simpa [Listing.render] using Listing.prints_array_toJson ls ['\n']
  refine ⟨⟨String.ofList ((Json.array (ls.map Listing.toJson)).pretty 0), rfl, ?_⟩, ?_, ?_⟩
  · have hreads := Listing.prints_array_toJson ls []
    rw [List.append_nil] at hreads
    intro v
    rw [String.toList_ofList]
    constructor
    · intro hv
      exact Phrase.value.inj (hv.unique hreads trivial ends_nil ends_nil).1
    · rintro rfl
      exact hreads
  · intro v
    constructor
    · intro hv
      exact hv.unique (hdocument ls)
    · rintro rfl
      exact hdocument ls
  · intro ls'
    constructor
    · intro htext
      have harray := (htext ▸ hdocument ls').unique (hdocument ls)
      exact Listing.jsonValue_injective.list_map (Value.array.inj harray)
    · rintro rfl
      rfl

end RubyLex

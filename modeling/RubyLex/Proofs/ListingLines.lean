import RubyLex.Command.Tokenize
import RubyLex.Proofs.JsonListing
import RubyLex.Proofs.QuotedText
import RubyLex.Proofs.Tiling

/-!
# Listings as lines

The two formats that are read line by line.  A text is cut at every occurrence of a character into
`pieces`, and lines that are each ended by a line feed are the pieces of their text, with nothing
behind the last one (`pieces_ofLines`).

* Plain rows are not quoted.  They can be cut into their columns all the same, since no token of a
  source contains a blank.
* Pretty records are quoted, so that any token stands on one line and can be told from it.  Records,
  headers and the blank lines between listings differ in their first character, so that the lines
  tell the listings.
-/

namespace RubyLex

namespace Text

/-- The pieces of a text between the occurrences of a character, empty ones included. -/
def pieces (sep : Char) (text : String) : List String :=
  (text.toList.splitOn sep).map String.ofList

/-- Pieces without the character that is put between them are found again. -/
theorem pieces_intercalate {sep : Char} {parts : List String} (hne : parts ≠ [])
    (h : ∀ part ∈ parts, sep ∉ part.toList) :
    pieces sep ((String.singleton sep).intercalate parts) = parts := by
  have hlists : ∀ cs ∈ parts.map String.toList, sep ∉ cs := by
    intro cs hcs
    obtain ⟨part, hpart, rfl⟩ := List.mem_map.mp hcs
    exact h part hpart
  rw [pieces, String.toList_intercalate, String.toList_singleton,
    List.splitOn_intercalate sep hlists (by simpa using hne), List.map_map]
  exact List.map_id'' (fun _ ↦ String.ofList_toList) parts

/-- What stands between lists put together comes from one of them or from what was put between. -/
theorem mem_of_mem_intercalate {α : Type} {a : α} {sep : List α} {parts : List (List α)}
    (h : a ∈ sep.intercalate parts) : a ∈ sep ∨ ∃ part ∈ parts, a ∈ part := by
  induction parts with
  | nil => cases h
  | cons part parts ih =>
    cases parts with
    | nil => exact .inr ⟨part, List.mem_cons_self, by simpa using h⟩
    | cons next parts =>
      rw [List.intercalate_cons_cons, List.mem_append, List.mem_append] at h
      rcases h with (h | h) | h
      · exact .inr ⟨part, List.mem_cons_self, h⟩
      · exact .inl h
      · exact (ih h).imp_right fun ⟨p, hp, ha⟩ ↦ ⟨p, List.mem_cons_of_mem part hp, ha⟩

/-- Lines, each ended by a line feed. -/
def ofLines (lines : List String) : String :=
  String.join (lines.map (· ++ "\n"))

@[simp] theorem ofLines_cons (line : String) (lines : List String) :
    ofLines (line :: lines) = line ++ "\n" ++ ofLines lines := by
  rw [ofLines, List.map_cons, String.join_cons]
  rfl

theorem ofLines_append (lines lines' : List String) :
    ofLines (lines ++ lines') = ofLines lines ++ ofLines lines' := by
  rw [ofLines, List.map_append, String.join_append]
  rfl

theorem join_map_ofLines {α : Type} (f : α → List String) (as : List α) :
    String.join (as.map fun a ↦ ofLines (f a)) = ofLines (as.flatMap f) := by
  induction as with
  | nil => rfl
  | cons a as ih => rw [List.map_cons, String.join_cons, ih, List.flatMap_cons, ofLines_append]

/-- Lines are the pieces of their text, and the last line feed ends it. -/
theorem pieces_ofLines {lines : List String} (h : ∀ line ∈ lines, '\n' ∉ line.toList) :
    pieces '\n' (ofLines lines) = lines ++ [""] := by
  induction lines with
  | nil => rfl
  | cons line lines ih =>
    have hline : '\n' ∉ line.toList := h line List.mem_cons_self
    have htext : (ofLines (line :: lines)).toList =
        line.toList ++ '\n' :: (ofLines lines).toList := by
      simp
    have ih := ih fun l hl ↦ h l (List.mem_cons_of_mem line hl)
    rw [pieces, htext, List.splitOn_append_cons_self_of_not_mem hline, List.map_cons,
      String.ofList_toList, ← pieces, ih, List.cons_append]

end Text

open Text

/-- No name of a kind has a blank in it. -/
theorem Kind.not_blank_name (k : Kind) : ∀ c ∈ k.name.toList, isBlank c = false := by
  have hall : k.name.toList.all (fun c ↦ !isBlank c) = true := by
    cases k <;> rfl
  simpa using hall

namespace Listing

/-! ## Plain listings -/

/-- The columns of a token, after a column with the name of its source if there is one. -/
def plainCells (name? : Option String) (t : Token) : List String :=
  name?.toList ++ [t.kind.name, t.value]

/-- The rows of some listings, cut into columns. -/
def plainTable (ls : List Listing) : List (List String) :=
  ls.flatMap fun l ↦ l.tokens.map (plainCells (if ls.length > 1 then some l.name else none))

theorem plainRow_eq (name? : Option String) (t : Token) :
    plainRow name? t = "\t".intercalate (plainCells name? t) ++ "\n" := by
  cases name? with
  | none => simp [plainRow, plainCells]
  | some name => simp [plainRow, plainCells, String.append_assoc]

theorem plain_eq_ofLines (ls : List Listing) :
    plain ls = ofLines ((plainTable ls).map "\t".intercalate) := by
  have hrows (l : Listing) (name? : Option String) :
      String.join (l.tokens.map (plainRow name?)) =
        ofLines (l.tokens.map fun t ↦ "\t".intercalate (plainCells name? t)) := by
    rw [ofLines, List.map_map]
    exact congrArg String.join (List.map_congr_left fun t _ ↦ plainRow_eq name? t)
  simp only [plain, hrows, join_map_ofLines]
  rw [plainTable, List.map_flatMap]
  simp only [List.map_map]
  rfl

/-- A table whose cells contain neither tabs nor line feeds is cut into its rows and columns. -/
theorem cells_plain {ls : List Listing}
    (h : ∀ row ∈ plainTable ls, ∀ cell ∈ row, '\t' ∉ cell.toList ∧ '\n' ∉ cell.toList) :
    (pieces '\n' (plain ls)).map (pieces '\t') = plainTable ls ++ [[""]] := by
  have hne : ∀ row ∈ plainTable ls, row ≠ [] := by
    intro row hrow
    simp only [plainTable, List.mem_flatMap, List.mem_map] at hrow
    obtain ⟨l, -, t, -, rfl⟩ := hrow
    simp [plainCells]
  have hline : ∀ line ∈ (plainTable ls).map "\t".intercalate, '\n' ∉ line.toList := by
    intro line hline hmem
    obtain ⟨row, hrow, rfl⟩ := List.mem_map.mp hline
    rw [String.toList_intercalate] at hmem
    rcases mem_of_mem_intercalate hmem with hmem | ⟨cs, hcs, hmem⟩
    · exact absurd hmem (by decide)
    · obtain ⟨cell, hcell, rfl⟩ := List.mem_map.mp hcs
      exact (h row hrow cell hcell).2 hmem
  rw [plain_eq_ofLines, pieces_ofLines hline, List.map_append, List.map_map]
  congr 1
  refine (List.map_congr_left fun row hrow ↦ ?_).trans (List.map_id _)
  exact pieces_intercalate (hne row hrow) fun cell hcell ↦ (h row hrow cell hcell).1

/-- The cells of sources fit, if the names that are shown do. -/
theorem fits_of_mem_plainTable {sources : List Source} {row : List String} {cell : String}
    (hnames : sources.length > 1 →
      ∀ s ∈ sources, '\t' ∉ s.name.toList ∧ '\n' ∉ s.name.toList)
    (hrow : row ∈ plainTable (sources.map Command.Tokenize.listing)) (hcell : cell ∈ row) :
    '\t' ∉ cell.toList ∧ '\n' ∉ cell.toList := by
  have fits_of_not_blank {cell : String} (h : ∀ c ∈ cell.toList, isBlank c = false) :
      '\t' ∉ cell.toList ∧ '\n' ∉ cell.toList :=
    ⟨fun ht ↦ absurd (h _ ht) (by decide), fun hn ↦ absurd (h _ hn) (by decide)⟩
  simp only [plainTable, List.mem_flatMap, List.mem_map, List.length_map] at hrow
  obtain ⟨_, ⟨source, hsource, rfl⟩, t, ht, rfl⟩ := hrow
  simp only [plainCells, List.mem_append, List.mem_cons, List.not_mem_nil, or_false] at hcell
  rcases hcell with hname | rfl | rfl
  · split at hname
    · next hseveral =>
      rw [Option.toList_some, List.mem_singleton] at hname
      rw [hname]
      exact hnames hseveral source hsource
    · cases hname
  · exact fits_of_not_blank t.kind.not_blank_name
  · exact fits_of_not_blank (Kind.Matches.not_blank (wellFormed_of_mem_tokenize ht))

end Listing

/-- The plain listing of sources is a table with a row to a token, in order: the name of its kind
and its text, after the name of the source if there are several.  Cut at line feeds and then at
tabs it gives these rows and nothing else. -/
theorem plain_listing_reads_back :
    (∀ source : Source,
      (pieces '\n' (Listing.render .plain [Command.Tokenize.listing source])).map (pieces '\t') =
        (tokenize source.content).map (fun t ↦ [t.kind.name, t.value]) ++ [[""]]) ∧
    ∀ sources : List Source, 1 < sources.length →
      (∀ s ∈ sources, '\t' ∉ s.name.toList ∧ '\n' ∉ s.name.toList) →
      (pieces '\n' (Listing.render .plain (sources.map Command.Tokenize.listing))).map
          (pieces '\t') =
        (sources.flatMap fun s ↦ (tokenize s.content).map fun t ↦ [s.name, t.kind.name, t.value]) ++
          [[""]] := by
  constructor
  · intro source
    have hsingle : ¬ [source].length > 1 := Nat.lt_irrefl 1
    have hcells := Listing.cells_plain fun row hrow cell hcell ↦
      Listing.fits_of_mem_plainTable (fun hseveral ↦ absurd hseveral hsingle) hrow hcell
    rw [Listing.render, ← List.map_singleton, hcells, List.map_singleton, Listing.plainTable,
      List.flatMap_singleton]
    rfl
  · intro sources hseveral hnames
    rw [Listing.render, Listing.cells_plain fun row hrow cell hcell ↦
      Listing.fits_of_mem_plainTable (fun _ ↦ hnames) hrow hcell, Listing.plainTable,
      List.flatMap_map]
    simp only [List.length_map, gt_iff_lt, hseveral, if_true]
    rfl

/-- Two sources, the second of which has blanks of all sorts and a character without a rule. -/
theorem plain_listing_reads_back_two :
    (pieces '\n' (Listing.render .plain ([⟨"a b.rb", "x+=1"⟩, ⟨"-", "\t5.\r\n λ"⟩].map
        Command.Tokenize.listing))).map (pieces '\t') =
      [["a b.rb", "WORD", "x"], ["a b.rb", "PLUS_EQUALS", "+="], ["a b.rb", "NUMBER", "1"],
        ["-", "NUMBER", "5."], ["-", "CHAR", "λ"], [""]] :=
  (plain_listing_reads_back.2 [⟨"a b.rb", "x+=1"⟩, ⟨"-", "\t5.\r\n λ"⟩]
    (by decide) (by decide)).trans (by decide +kernel)

namespace Listing

/-! ## Pretty listings -/

/-- The line of a token. -/
def record (t : Token) : String :=
  "\x7btype: " ++ quote t.kind.name ++ ", value: " ++ quote t.value ++ "\x7d"

/-- The line above the records of a listing that is not alone. -/
def heading (l : Listing) : String :=
  "==> " ++ l.name ++ " <=="

/-- The lines of a listing that is not alone. -/
def block (l : Listing) : List String :=
  l.heading :: l.tokens.map record

/-- The lines of some listings: records alone, or records under headings with an empty line between
one listing and the next. -/
def prettyLayout : List Listing → List String
  | [l] => l.tokens.map record
  | ls => [""].intercalate (ls.map block)

theorem prettyLines_eq_ofLines (l : Listing) : l.prettyLines = ofLines (l.tokens.map record) := by
  have hline (t : Token) : prettyLine t = record t ++ "\n" := by
    simp only [prettyLine, record, String.append_assoc]
    rfl
  rw [prettyLines, ofLines, List.map_map]
  exact congrArg String.join (List.map_congr_left fun t _ ↦ hline t)

theorem header_append_prettyLines (l : Listing) : l.header ++ l.prettyLines = ofLines l.block := by
  have hheader : l.header = l.heading ++ "\n" := by
    simp only [header, heading, String.append_assoc]
    rfl
  rw [hheader, prettyLines_eq_ofLines, block, ofLines_cons]

/-- A line feed between two texts of whole lines is an empty line between the lines. -/
theorem intercalate_ofLines (blocks : List (List String)) :
    "\n".intercalate (blocks.map ofLines) = ofLines ([""].intercalate blocks) := by
  induction blocks with
  | nil => rfl
  | cons b blocks ih =>
    cases blocks with
    | nil => simp
    | cons b' blocks =>
      rw [List.map_cons] at ih
      rw [List.map_cons, List.map_cons, String.intercalate_cons_cons, ih,
        List.intercalate_cons_cons, ofLines_append, ofLines_append]
      rfl

theorem pretty_eq_ofLines (ls : List Listing) : pretty ls = ofLines (prettyLayout ls) := by
  match ls with
  | [] => rfl
  | [l] => exact l.prettyLines_eq_ofLines
  | l :: m :: ls =>
    have hblocks : (l :: m :: ls).map (fun l ↦ l.header ++ l.prettyLines) =
        ((l :: m :: ls).map block).map ofLines := by
      rw [List.map_map]
      exact List.map_congr_left fun l _ ↦ l.header_append_prettyLines
    calc pretty (l :: m :: ls)
        = "\n".intercalate ((l :: m :: ls).map fun l ↦ l.header ++ l.prettyLines) := rfl
      _ = ofLines ([""].intercalate ((l :: m :: ls).map block)) := by
          rw [hblocks, intercalate_ofLines]

theorem newline_not_mem_record (t : Token) : '\n' ∉ (record t).toList := by
  have hkind := newline_not_mem_quote t.kind.name
  have hvalue := newline_not_mem_quote t.value
  simp [record, hkind, hvalue]

theorem newline_not_mem_block {l : Listing} (hname : '\n' ∉ l.name.toList) :
    ∀ line ∈ l.block, '\n' ∉ line.toList := by
  intro line hline
  rcases List.mem_cons.mp hline with rfl | hline
  · simp [heading, hname]
  · obtain ⟨t, -, rfl⟩ := List.mem_map.mp hline
    exact newline_not_mem_record t

/-- Every line of a layout is a line of its own in the text. -/
theorem pieces_pretty {ls : List Listing} (hnames : ∀ l ∈ ls, '\n' ∉ l.name.toList) :
    pieces '\n' (pretty ls) = prettyLayout ls ++ [""] := by
  have hlines : ∀ line ∈ prettyLayout ls, '\n' ∉ line.toList := by
    intro line hline
    match ls with
    | [] => cases hline
    | [l] =>
      obtain ⟨t, -, rfl⟩ := List.mem_map.mp hline
      exact newline_not_mem_record t
    | l :: m :: ls =>
      rcases mem_of_mem_intercalate hline with hempty | ⟨b, hb, hline⟩
      · rw [List.mem_singleton.mp hempty]
        decide
      · obtain ⟨l', hl', rfl⟩ := List.mem_map.mp hb
        exact newline_not_mem_block (hnames l' hl') line hline
  rw [pretty_eq_ofLines, pieces_ofLines hlines]

/-! ### Lines tell listings -/

theorem record_injective : Function.Injective record := by
  rintro ⟨kind, value⟩ ⟨kind', value'⟩ h
  have htext := congrArg String.toList h
  simp only [record, String.toList_append, List.append_assoc] at htext
  obtain ⟨hkind, htail⟩ := quote_append_inj (List.append_cancel_left htext)
  obtain ⟨hvalue, -⟩ := quote_append_inj (List.append_cancel_left htail)
  rw [Kind.name_injective hkind, hvalue]

theorem block_injective : Function.Injective block := by
  rintro ⟨name, tokens⟩ ⟨name', tokens'⟩ h
  obtain ⟨hheading, hrecords⟩ := List.cons.inj h
  have htext := congrArg String.toList hheading
  simp only [heading, String.toList_append, List.append_assoc] at htext
  have hname := List.append_cancel_right (List.append_cancel_left htext)
  obtain rfl : name = name' := String.toList_inj.mp hname
  obtain rfl : tokens = tokens' := record_injective.list_map hrecords
  rfl

theorem head?_record (t : Token) : (record t).toList.head? = some '\x7b' := by
  simp [record]

theorem head?_heading (l : Listing) : l.heading.toList.head? = some '=' := by
  simp [heading]

theorem empty_not_mem_block (l : Listing) : "" ∉ l.block := by
  intro h
  rcases List.mem_cons.mp h with h | h
  · have hhead := l.head?_heading
    rw [← h] at hhead
    cases hhead
  · obtain ⟨t, -, ht⟩ := List.mem_map.mp h
    have hhead := head?_record t
    rw [ht] at hhead
    cases hhead

/-- The empty lines tell where a listing ends and the next one starts. -/
theorem intercalate_block_inj {ls ls' : List Listing} (hne : ls ≠ []) (hne' : ls' ≠ [])
    (h : [""].intercalate (ls.map block) = [""].intercalate (ls'.map block)) : ls = ls' := by
  have hsplit {ls : List Listing} (hne : ls ≠ []) :
      ([""].intercalate (ls.map block)).splitOn "" = ls.map block := by
    refine List.splitOn_intercalate "" (fun b hb ↦ ?_) (by simpa using hne)
    obtain ⟨l, -, rfl⟩ := List.mem_map.mp hb
    exact l.empty_not_mem_block
  have hblocks : ls.map block = ls'.map block := by
    rw [← hsplit hne, ← hsplit hne', h]
  exact block_injective.list_map hblocks

/-- Records alone are no records under headings. -/
theorem map_record_ne_prettyLayout (ts : List Token) (l m : Listing) (ls : List Listing) :
    ts.map record ≠ prettyLayout (l :: m :: ls) := by
  intro h
  have hfirst : (prettyLayout (l :: m :: ls)).head? = some l.heading := by
    simp [prettyLayout, block]
  rw [← h] at hfirst
  cases ts with
  | nil => cases hfirst
  | cons t ts =>
    have hhead := head?_record t
    rw [Option.some.inj hfirst, head?_heading] at hhead
    exact absurd hhead (by decide)

/-- The lines of listings tell their tokens, and their names if there are several. -/
theorem prettyLayout_eq_iff {ls ls' : List Listing} (hne : ls ≠ []) (hne' : ls' ≠ []) :
    prettyLayout ls' = prettyLayout ls ↔
      ls'.map tokens = ls.map tokens ∧ (1 < ls.length → ls'.map name = ls.map name) := by
  match ls, ls' with
  | [], _ => exact absurd rfl hne
  | _, [] => exact absurd rfl hne'
  | [l], [l'] =>
    have hrecords : l'.tokens.map record = l.tokens.map record ↔ l'.tokens = l.tokens :=
      record_injective.list_map.eq_iff
    simpa [prettyLayout] using hrecords
  | [l], l' :: m' :: ls' =>
    exact iff_of_false (map_record_ne_prettyLayout _ _ _ _).symm (by simp)
  | l :: m :: ls, [l'] =>
    exact iff_of_false (map_record_ne_prettyLayout _ _ _ _) (by simp)
  | l :: m :: ls, l' :: m' :: ls' =>
    constructor
    · intro h
      rw [intercalate_block_inj hne' hne h]
      exact ⟨rfl, fun _ ↦ rfl⟩
    · rintro ⟨htokens, hnames⟩
      have hzip (ls : List Listing) : (ls.map name).zipWith mk (ls.map tokens) = ls := by
        simp [List.zipWith_map, List.zipWith_self]
      rw [← hzip (l' :: m' :: ls'), htokens, hnames (by simp), hzip]

end Listing

/-- The pretty listing puts every token on a line of its own.  It tells the tokens of every source,
whatever their texts are, and the names of the sources if there are several. -/
theorem pretty_listing_tells_tokens (ls : List Listing) (hne : ls ≠ [])
    (hnames : ∀ l ∈ ls, '\n' ∉ l.name.toList) :
    pieces '\n' (Listing.render .pretty ls) = Listing.prettyLayout ls ++ [""] ∧
    ∀ ls' : List Listing, ls' ≠ [] → (∀ l ∈ ls', '\n' ∉ l.name.toList) →
      (Listing.render .pretty ls' = Listing.render .pretty ls ↔
        ls'.map Listing.tokens = ls.map Listing.tokens ∧
          (1 < ls.length → ls'.map Listing.name = ls.map Listing.name)) := by
  refine ⟨Listing.pieces_pretty hnames, fun ls' hne' hnames' ↦ ?_⟩
  rw [← Listing.prettyLayout_eq_iff hne hne']
  constructor
  · intro h
    have hpieces := congrArg (pieces '\n') h
    rw [Listing.render, Listing.render, Listing.pieces_pretty hnames,
      Listing.pieces_pretty hnames'] at hpieces
    exact List.append_cancel_right hpieces
  · intro h
    rw [Listing.render, Listing.render, Listing.pretty_eq_ofLines, h, Listing.pretty_eq_ofLines]

/-- A mark that goes on the letter before it, and the text that spells its number, under names that
look like lines of a listing. -/
theorem pretty_listing_tells_tokens_mark :
    let written (value : String) : List Listing :=
      [⟨"b <==", []⟩, ⟨"\x7btype: \"WORD\"", [⟨.char, value⟩, ⟨.doubleQuote, "\""⟩]⟩]
    pieces '\n' (Listing.render .pretty (written "\u0301")) =
      ["==> b <== <==", "", "==> \x7btype: \"WORD\" <==",
        "\x7btype: \"CHAR\", value: \"\\u\x7b301\x7d\"\x7d",
        "\x7btype: \"DOUBLE_QUOTE\", value: \"\\\"\"\x7d", ""] ∧
    Listing.render .pretty (written "\\u\x7b301\x7d") ≠
      Listing.render .pretty (written "\u0301") := by
  intro written
  obtain ⟨hlines, htells⟩ := pretty_listing_tells_tokens (written "\u0301")
    (by simp [written]) (by decide)
  refine ⟨hlines.trans (by decide +kernel), fun h ↦ ?_⟩
  have htokens := ((htells (written "\\u\x7b301\x7d") (by simp [written]) (by decide)).mp h).1
  exact absurd htokens (by decide)

end RubyLex

import RubyLex.Toml.Moment

/-!
# Reading TOML documents

A document is read line by line into statements, and the statements are carried out in order.
-/

namespace RubyLex.Toml

/-- The text after blanks, line breaks and comments. -/
def skipTrivia (inComment : Bool) : List Char → List Char
  | [] => []
  | '\n' :: rest => skipTrivia false rest
  | '\r' :: '\n' :: rest => skipTrivia false rest
  | c :: rest =>
    if inComment then if isPlain c then skipTrivia true rest else c :: rest
    else if isSpace c then skipTrivia false rest
    else if c = '#' then skipTrivia true rest
    else c :: rest

/-- The text after the rest of a line that holds nothing but blanks and a comment. -/
def lineEnd? (cs : List Char) : Option (List Char) :=
  let cs := skipSpaces cs
  let cs := if cs.head? = some '#' then cs.dropWhile isPlain else cs
  if cs = [] then some [] else lineBreak? cs

/-! ### Keys -/

/-- The characters of a key that stands without quotes. -/
def isBare (c : Char) : Bool :=
  c.isAlphanum || c == '_' || c == '-'

/-- Reads one part of a key. -/
def keyPart? : List Char → Option (String × List Char)
  | '"' :: rest => (basic? rest).map fun (text, rest) => (String.ofList text, rest)
  | '\x27' :: rest => (literal? rest).map fun (text, rest) => (String.ofList text, rest)
  | cs =>
    let text := cs.takeWhile isBare
    if text = [] then none else some (String.ofList text, cs.dropWhile isBare)

/-- Reads at most `bound` parts of a key, with points between them and blanks around them. -/
def keyParts? : Nat → List Char → Option (List String × List Char)
  | 0, _ => none
  | bound + 1, cs => do
    let (part, rest) ← keyPart? (skipSpaces cs)
    match skipSpaces rest with
    | '.' :: rest =>
      let (parts, rest) ← keyParts? bound rest
      return (part :: parts, rest)
    | rest => return ([part], rest)

/-- The number of parts of a key, and of brackets around a value, must stay below this. -/
def nestingLimit : Nat :=
  80

/-- Reads a key as the keys of the tables that lead to it and its own. -/
def key? (cs : List Char) : Option ((List String × String) × List Char) := do
  let (parts, rest) ← keyParts? (nestingLimit - 1) cs
  let key ← parts.getLast?
  return ((parts.dropLast, key), rest)

/-! ### Values -/

/-- Reads a key, the sign after it, and a value. -/
def pair? (value? : List Char → Option (Node × List Char)) (cs : List Char) :
    Option ((List String × String × Node) × List Char) := do
  let ((path, key), rest) ← key? cs
  let (node, rest) ← value? (skipSpaces (← after? '=' rest))
  return ((path, key, node), rest)

/-- Reads the items of an array up to the bracket that ends it, at most `bound` of them. -/
def items? (value? : List Char → Option (Node × List Char)) :
    Nat → List Char → Option (List Node × List Char)
  | 0, _ => none
  | bound + 1, cs =>
    match skipTrivia false cs with
    | ']' :: rest => some ([], rest)
    | cs => do
      let (node, rest) ← value? cs
      match skipTrivia false rest with
      | ',' :: rest =>
        let (nodes, rest) ← items? value? bound rest
        return (node :: nodes, rest)
      | ']' :: rest => return ([node], rest)
      | _ => none

/-- Reads the pairs of an inline table up to the brace that ends it, at most `bound` of them, into
the fields that are read. -/
def pairs? (value? : List Char → Option (Node × List Char)) :
    Nat → Fields → List Char → Option (Fields × List Char)
  | 0, _, _ => none
  | bound + 1, fields, cs => do
    let ((path, key, node), rest) ← pair? value? cs
    let fields ← assign? path key node .inline fields
    match skipSpaces rest with
    | ',' :: rest => pairs? value? bound fields rest
    | '\x7d' :: rest => return (fields, rest)
    | _ => none

/-- Reads a value inside of which at most `depth` brackets are opened. -/
def value? : Nat → List Char → Option (Node × List Char)
  | _, [] => none
  | depth, c :: cs =>
    if c = '"' ∨ c = '\x27' then
      (string? (c :: cs)).map fun (text, rest) => (.string (String.ofList text), rest)
    else if c = '[' then
      match depth with
      | 0 => none
      | depth + 1 => (items? (value? depth) (cs.length + 1) cs).map fun (nodes, rest) =>
          (.array nodes, rest)
    else if c = '\x7b' then
      match depth with
      | 0 => none
      | depth + 1 =>
        match skipSpaces cs with
        | '\x7d' :: rest => some (.table .inline [], rest)
        | cs => (pairs? (value? depth) (cs.length + 1) [] cs).map fun (fields, rest) =>
            (.table .inline fields, rest)
    else boolean? (c :: cs) <|> number? (c :: cs)

/-! ### Documents -/

/-- Reads a header up to its closing brackets. -/
def header? (closing : Nat) (cs : List Char) : Option ((List String × String) × List Char) := do
  let (name, rest) ← key? cs
  if rest.take closing = List.replicate closing ']' then return (name, rest.drop closing) else none

/-- Reads a line that says something, without its end. -/
def statement? : List Char → Option (Statement × List Char)
  | '[' :: '[' :: cs => (header? 2 cs).map fun ((path, key), rest) => (.openElement path key, rest)
  | '[' :: cs => (header? 1 cs).map fun ((path, key), rest) => (.openTable path key, rest)
  | cs => (pair? (value? (nestingLimit - 1)) cs).map fun ((path, key, node), rest) =>
      (.assign path key node, rest)

/-- Reads at most `bound` lines up to the end of the text. -/
def statements? : Nat → List Char → Option (List Statement)
  | 0, cs => if cs = [] then some [] else none
  | bound + 1, cs =>
    if cs = [] then some []
    else
      match lineEnd? cs with
      | some rest => statements? bound rest
      | none => do
        let (statement, rest) ← statement? (skipSpaces cs)
        return statement :: (← statements? bound (← lineEnd? rest))

/-- The text after a byte order mark. -/
def skipMark : List Char → List Char
  | '\ufeff' :: rest => rest
  | cs => cs

/-- The fields of the document that a text holds. A text has no more lines than characters. -/
def parse? (text : String) : Option Fields :=
  let cs := skipMark text.toList
  (statements? cs.length cs).bind Document.build?

end RubyLex.Toml

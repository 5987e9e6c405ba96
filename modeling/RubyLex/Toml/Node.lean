/-!
# TOML documents

The tree that a TOML document stands for. A table remembers how it came to be, because that
decides which later lines may still extend it.
-/

namespace RubyLex.Toml

/-- How a table came to be. -/
inductive Form where
  /-- Written as a value between braces. -/
  | inline
  /-- Opened by a header of its own. -/
  | header
  /-- Implied by a header of a table inside it. -/
  | implied
  /-- Implied by a dotted key. -/
  | dotted
deriving DecidableEq, Repr

/-- A value or a table. Of floating-point numbers and of dates only the fact is kept. -/
inductive Node where
  | string (value : String)
  | integer (value : Int)
  | boolean (value : Bool)
  | float
  | moment
  | array (items : List Node)
  | table (form : Form) (fields : List (String × Node))
  /-- The tables opened by headers in double brackets, the last one first. -/
  | tables (last : List (String × Node)) (before : List (List (String × Node)))

/-- The fields of a table in the order in which they came. -/
abbrev Fields := List (String × Node)

namespace Fields

/-- Gives a key that is there a new node. -/
def replace (fields : Fields) (key : String) (node : Node) : Fields :=
  fields.map fun f => if f.1 = key then (key, node) else f

/-- Adds a key that is not there. -/
def add? (fields : Fields) (key : String) (node : Node) : Option Fields :=
  match fields.lookup key with
  | none => some (fields ++ [(key, node)])
  | some _ => none

end Fields

/-- Whether a path that makes tables of form `made` may lead through a table. A dotted key may not
lead into a table that has its own header, and nothing leads into an inline table. -/
def Form.admits (made : Form) : Form → Bool
  | .inline => false
  | .header => made ≠ .dotted
  | .implied | .dotted => true

/-- Changes the table at the end of a path of keys. Tables that are missing on the way are made, in
the form `made`; of tables in double brackets the last is meant. -/
def alter? (made : Form) (change : Form → Fields → Option Fields) :
    List String → Form → Fields → Option Fields
  | [], form, fields => change form fields
  | key :: path, _, fields =>
    match fields.lookup key with
    | none => (alter? made change path made []).map fun inner =>
        fields ++ [(key, .table made inner)]
    | some (.table form inner) =>
      if made.admits form then
        (alter? made change path form inner).map fun inner =>
          fields.replace key (.table form inner)
      else none
    | some (.tables last before) =>
      (alter? made change path .header last).map fun last =>
        fields.replace key (.tables last before)
    | some _ => none

/-- Sets a key, given as the keys of the tables that lead to it and its own. A table that was not
made by dotted keys takes no dotted key. -/
def assign? (path : List String) (key : String) (node : Node) (form : Form) (fields : Fields) :
    Option Fields :=
  alter? .dotted
    (fun form inner => if path ≠ [] ∧ form ≠ .dotted then none else inner.add? key node)
    path form fields

/-- Opens the table of a header. A table can be opened once, and only if no dotted key made it. -/
def openTable? (key : String) (fields : Fields) : Option Fields :=
  match fields.lookup key with
  | none => some (fields ++ [(key, .table .header [])])
  | some (.table .implied inner) => some (fields.replace key (.table .header inner))
  | some _ => none

/-- Opens one more table of a header in double brackets. -/
def openElement? (key : String) (fields : Fields) : Option Fields :=
  match fields.lookup key with
  | none => some (fields ++ [(key, .tables [] [])])
  | some (.tables last before) => some (fields.replace key (.tables [] (last :: before)))
  | some _ => none

/-- A line of a document that says something. Keys are given with the keys that lead to them. -/
inductive Statement where
  | assign (path : List String) (key : String) (node : Node)
  | openTable (path : List String) (key : String)
  | openElement (path : List String) (key : String)

/-- The fields of a document as far as it is read, and the path of the table that is open. -/
structure Document where
  fields : Fields
  current : List String

/-- Carries out a statement. -/
def Document.apply? (d : Document) : Statement → Option Document
  | .assign path key node =>
    (alter? .implied (fun form inner => assign? path key node form inner) d.current .header
      d.fields).map fun fields => ⟨fields, d.current⟩
  | .openTable path key =>
    (alter? .implied (fun _ inner => openTable? key inner) path .header d.fields).map
      fun fields => ⟨fields, path ++ [key]⟩
  | .openElement path key =>
    (alter? .implied (fun _ inner => openElement? key inner) path .header d.fields).map
      fun fields => ⟨fields, path ++ [key]⟩

/-- The fields of a document that is a list of statements. -/
def Document.build? (statements : List Statement) : Option Fields :=
  (statements.foldlM Document.apply? ⟨[], []⟩).map Document.fields

end RubyLex.Toml

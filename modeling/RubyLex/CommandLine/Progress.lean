import RubyLex.CommandLine.Said

/-!
# Reading the words of a command line

The words of a level are read from the left. An option waits for its value in the next word; it is
settled, and its value checked, when the next option or input is met or when the words end.
-/

namespace RubyLex.CommandLine

/-- How far a level is read. -/
structure Progress where
  said : Said := []
  /-- The parameter that was met last, with its values so far, if it is not settled. -/
  pending? : Option (Parameter × List String) := none
  /-- Whether the next word is the value of the pending parameter. -/
  awaiting : Bool := false
  /-- Whether no more options follow. -/
  trailing : Bool := false

namespace Progress

/-- Settles the pending parameter. -/
def settle (level : Level) (st : Progress) : Except Stop Progress :=
  match st.pending? with
  | none => .ok { st with awaiting := false }
  | some (p, values) => do
    let said ← st.said.add level p values
    return { st with said, pending? := none, awaiting := false }

/-- Meets an option whose value, if it has one, is known. -/
def meet (level : Level) (st : Progress) (p : Parameter) (values : List String) :
    Except Stop Progress := do
  let st ← st.settle level
  let said ← st.said.add level p values
  return { st with said }

/-- Meets an option whose value is the next word. -/
def await (level : Level) (st : Progress) (p : Parameter) : Except Stop Progress := do
  let st ← st.settle level
  return { st with pending? := some (p, []), awaiting := true }

/-- Reads a word that starts with two dashes, which are left out here. -/
def readLong (level : Level) (st : Progress) (word : List Char) : Except Stop Progress :=
  let name := String.ofList (word.takeWhile (· ≠ '='))
  let value? := (word.dropWhile (· ≠ '=')).tail?.map String.ofList
  match level.long? name with
  | none => .error (.unexpectedArgument ("--" ++ name))
  | some p =>
    match p.takesValue, value? with
    | true, some value => st.meet level p [value]
    | true, none => st.await level p
    | false, some value => .error (.unexpectedValue value p)
    | false, none => st.meet level p []

/-- Reads a word that starts with one dash, which is left out here: letters of options, the last of
which may have its value attached. -/
def readShort (level : Level) (st : Progress) : List Char → Except Stop Progress
  | [] => .ok st
  | c :: rest =>
    match level.short? c with
    | none => .error (.unexpectedArgument (String.ofList ['-', c]))
    | some p =>
      if p.takesValue then
        match rest with
        | [] => st.await level p
        | '=' :: value => st.meet level p [String.ofList value]
        | value => st.meet level p [String.ofList value]
      else
        match st.meet level p [] with
        | .ok st => readShort level st rest
        | .error stop => .error stop

/-- Whether a word names a command or asks for help with one. -/
def isCommandWord (word : String) : Bool :=
  word = "help" || (Command.Name.ofText? word).isSome

/-- Reads a word that is no option and no value. -/
def readInput (level : Level) (st : Progress) (word : String) : Except Stop Progress :=
  if level.takesInputs then
    match st.pending? with
    | some (.inputs, values) => .ok { st with pending? := some (.inputs, values ++ [word]) }
    | _ => do
      let st ← st.settle level
      return { st with pending? := some (.inputs, [word]) }
  else if level = .top && !(st.trailing && isCommandWord word) then
    .error (.unknownCommand word)
  else .error (.unexpectedArgument word)

/-- Reads a word that names no command. -/
def readWord (level : Level) (st : Progress) (word : String) : Except Stop Progress :=
  if st.trailing then st.readInput level word
  else
    match word.toList with
    | ['-', '-'] => .ok { st with trailing := true }
    | '-' :: '-' :: name => st.readLong level name
    | '-' :: c :: letters => st.readShort level (c :: letters)
    | _ =>
      match st.awaiting, st.pending? with
      | true, some (p, values) =>
        .ok { st with pending? := some (p, values ++ [word]), awaiting := false }
      | _, _ => st.readInput level word

/-- Whether the next word may name a command. -/
def expectsCommand (level : Level) (st : Progress) : Bool :=
  level = .top && !st.trailing && !st.awaiting

/-- Reads words up to their end, or up to the name of a command, which is given with the words
after it. -/
def readWords (level : Level) (st : Progress) :
    List String → Except Stop (Progress × Option (Command.Name × List String))
  | [] => .ok (st, none)
  | word :: rest =>
    if st.expectsCommand level && isCommandWord word then
      match Command.Name.ofText? word with
      | some name => .ok (st, some (name, rest))
      | none => .error (.help .top)
    else
      match st.readWord level word with
      | .ok st => readWords level st rest
      | .error stop => .error stop

end Progress

end RubyLex.CommandLine

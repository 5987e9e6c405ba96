/-!
# Paths

A path is kept as the text it was given as. Read as a route, it is a list of steps from the root
or from the working directory.
-/

namespace RubyLex

/-- One step of a route. -/
inductive Step where
  | here
  | up
  | down (name : String)
deriving DecidableEq, Repr

/-- The step that a segment between slashes stands for. -/
def Step.ofSegment (segment : List Char) : Step :=
  if segment = ['.'] then .here
  else if segment = ['.', '.'] then .up
  else .down (String.ofList segment)

/-- The steps of a path in order. -/
structure Route where
  /-- Whether the steps start at the root. -/
  absolute : Bool
  steps : List Step
  /-- Whether a slash ends the path, so that it can only name a directory. -/
  slashed : Bool
deriving DecidableEq, Repr

namespace Route

/-- A route that names nothing. -/
def isEmpty (r : Route) : Bool :=
  !r.absolute && r.steps.isEmpty

/-- The steps without those that stay in place, except for one at the start of a relative
route. -/
def parts (r : Route) : List Step :=
  match r.absolute, r.steps with
  | false, .here :: rest => .here :: rest.filter (· ≠ .here)
  | _, steps => steps.filter (· ≠ .here)

/-- The route to the directory that holds the last part. -/
def parent? (r : Route) : Option Route :=
  if r.parts = [] then none else some ⟨r.absolute, r.parts.dropLast, false⟩

end Route

/-- A path as it was given. -/
structure Path where
  text : String
deriving DecidableEq, Repr

namespace Path

/-- The steps of a path: its segments without the empty ones. -/
def route (p : Path) : Route where
  absolute := p.text.toList.head? = some '/'
  steps := ((p.text.toList.splitOn '/').filter (· ≠ [])).map Step.ofSegment
  slashed := p.text.toList.getLast? = some '/'

/-- A name inside the directory at a path. -/
def join (p : Path) (name : String) : Path :=
  if p.text = "" ∨ p.route.slashed then ⟨p.text ++ name⟩ else ⟨p.text ++ "/" ++ name⟩

/-- Whether a path stands for standard input: a dash alone, slashes after it apart. -/
def isStandardInput (p : Path) : Bool :=
  !p.route.absolute && p.route.parts == [.down "-"]

end Path

end RubyLex

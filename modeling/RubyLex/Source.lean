import RubyLex.Session

/-!
# Sources

Loading of texts from files and from standard input.
-/

namespace RubyLex

/-- A text in memory with the name it is listed under. -/
structure Source where
  name : String
  content : String
deriving DecidableEq, Repr

namespace Source

/-- Decodes the bytes read under a name. -/
def decode (name : String) (bytes : List UInt8) : Except Failure Source :=
  match Utf8.decode bytes with
  | .ok content => .ok ⟨name, content⟩
  | .error fault => .error (.inputNotUtf8 name fault)

/-- The name of standard input in listings. -/
def standardInputName : String :=
  "<stdin>"

/-- Reads a file that must exist and be no directory. -/
def readFile (files : FileSystem) (path : Path) : Except Failure Source :=
  match files.stat path.route with
  | .error _ => .error (.inputMissing path)
  | .ok .directory => .error (.inputNotFile path)
  | .ok (.file bytes) => decode path.text bytes

/-- Loads the file at a path, or what is left of standard input. -/
def load (path : Path) : Session Source := do
  if path.isStandardInput then
    Session.ofExcept (decode standardInputName (← Session.takeInput))
  else
    let source ← Session.ofExcept (readFile (← get).files path)
    Session.report [.loaded path source.content.utf8ByteSize]
    return source

/-- Loads the sources at some paths in order, up to the first that fails. -/
def loadAll : List Path → Session (List Source)
  | [] => return []
  | path :: rest => do
    let source ← load path
    return source :: (← loadAll rest)

end Source

end RubyLex

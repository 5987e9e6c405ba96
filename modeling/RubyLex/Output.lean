import RubyLex.Session

/-! # Where results go -/

namespace RubyLex.Output

/-- Writes a text to a file, and makes the directories that lead to it. A file that exists is
replaced only by force. -/
def writeFile (path : Path) (text : String) (force : Bool) : Session Unit := do
  if (← get).files.hasEntry path.route && !force then
    throw (.outputExists path)
  Session.onFiles (·.writeDeep path.route (Utf8.encode text.toList))
  Session.report [.wrote path]

/-- Writes a text to a file, or to standard output if no file is named. -/
def write (path? : Option Path) (text : String) (force : Bool) : Session Unit :=
  match path? with
  | some path => writeFile path text force
  | none => Session.print text

end RubyLex.Output

import RubyLex.Json
import RubyLex.Kind
import RubyLex.Text.Quoted

/-! # Tokens -/

namespace RubyLex

/-- A kind with the text that was read for it. -/
structure Token where
  kind : Kind
  value : String
deriving DecidableEq, Repr

namespace Token

/-- The kind, and the value as a quoted text in parentheses. -/
def describe (t : Token) : String :=
  t.kind.name ++ "(" ++ Text.quote t.value ++ ")"

/-- A token as a JSON object. -/
def toJson (t : Token) : Json :=
  .object [("type", .string t.kind.name), ("value", .string t.value)]

end Token

end RubyLex

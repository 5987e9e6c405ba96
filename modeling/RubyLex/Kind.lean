/-!
# Token kinds

The closed set of kinds, their names and fixed spellings, and the two symbol tables that a scan
consults: punctuation that always stands alone, and operators that one more character extends.
-/

namespace RubyLex

/-- The kind of a token. -/
inductive Kind where
  | word
  | number
  | colon
  | leftParen
  | rightParen
  | hash
  | singleQuote
  | doubleQuote
  | dot
  | leftBracket
  | rightBracket
  | leftBrace
  | rightBrace
  | comma
  | percent
  | lessThan
  | greaterThan
  | semicolon
  | exclamation
  | question
  | backslash
  | backtick
  | underscore
  | caret
  | ampersand
  | doubleAmpersand
  | equals
  | doubleEquals
  | pipe
  | doublePipe
  | minus
  | minusEquals
  | plus
  | plusEquals
  | times
  | timesEquals
  | divide
  | divideEquals
  | atSign
  | doubleAtSign
  | char
deriving DecidableEq, Repr

namespace Kind

/-- Every kind once, in the order of the table of kinds. -/
def all : List Kind :=
  [.word, .number, .colon, .leftParen, .rightParen, .hash, .singleQuote, .doubleQuote, .dot,
    .leftBracket, .rightBracket, .leftBrace, .rightBrace, .comma, .percent, .lessThan,
    .greaterThan, .semicolon, .exclamation, .question, .backslash, .backtick, .underscore, .caret,
    .ampersand, .doubleAmpersand, .equals, .doubleEquals, .pipe, .doublePipe, .minus,
    .minusEquals, .plus, .plusEquals, .times, .timesEquals, .divide, .divideEquals, .atSign,
    .doubleAtSign, .char]

theorem mem_all (k : Kind) : k ∈ all := by
  cases k <;> decide

/-- The name under which a kind is printed. -/
def name : Kind → String
  | .word => "WORD"
  | .number => "NUMBER"
  | .colon => "COLON"
  | .leftParen => "L_PAREN"
  | .rightParen => "R_PAREN"
  | .hash => "HASH_TAG"
  | .singleQuote => "SINGLE_QUOTE"
  | .doubleQuote => "DOUBLE_QUOTE"
  | .dot => "DOT"
  | .leftBracket => "L_SQUARE_PAREN"
  | .rightBracket => "R_SQUARE_PAREN"
  | .leftBrace => "L_CURLY"
  | .rightBrace => "R_CURLY"
  | .comma => "COMMA"
  | .percent => "PERCENT"
  | .lessThan => "LESS_THAN"
  | .greaterThan => "GREATER_THAN"
  | .semicolon => "SEMI_COLON"
  | .exclamation => "EXCLAMATION_MARK"
  | .question => "QUESTION_MARK"
  | .backslash => "BACKWARD_SLASH"
  | .backtick => "BACK_TICK"
  | .underscore => "UNDERSCORE"
  | .caret => "CARET"
  | .ampersand => "AND_SIGN"
  | .doubleAmpersand => "AND_SIGN_AND_SIGN"
  | .equals => "EQUALS"
  | .doubleEquals => "EQUALS_EQUALS"
  | .pipe => "PIPE"
  | .doublePipe => "PIPE_PIPE"
  | .minus => "MINUS"
  | .minusEquals => "MINUS_EQUALS"
  | .plus => "PLUS"
  | .plusEquals => "PLUS_EQUALS"
  | .times => "MULTIPLY"
  | .timesEquals => "MULTIPLY_EQUALS"
  | .divide => "DIVIDE"
  | .divideEquals => "DIVIDE_EQUALS"
  | .atSign => "AT"
  | .doubleAtSign => "AT_AT"
  | .char => "CHAR"

/-- The kind that a name stands for. -/
def ofName? (s : String) : Option Kind :=
  all.find? fun k => k.name == s

theorem ofName?_name (k : Kind) : ofName? k.name = some k := by
  cases k <;> rfl

/-- The place of a kind in the table of kinds. -/
def index (k : Kind) : Nat :=
  all.idxOf k

/-- The one text of a kind, for the kinds that have only one. -/
def spelling? : Kind → Option String
  | .word | .number | .char => none
  | .colon => some ":"
  | .leftParen => some "("
  | .rightParen => some ")"
  | .hash => some "#"
  | .singleQuote => some "'"
  | .doubleQuote => some "\""
  | .dot => some "."
  | .leftBracket => some "["
  | .rightBracket => some "]"
  | .leftBrace => some "\x7b"
  | .rightBrace => some "\x7d"
  | .comma => some ","
  | .percent => some "%"
  | .lessThan => some "<"
  | .greaterThan => some ">"
  | .semicolon => some ";"
  | .exclamation => some "!"
  | .question => some "?"
  | .backslash => some "\\"
  | .backtick => some "\x60"
  | .underscore => some "_"
  | .caret => some "^"
  | .ampersand => some "&"
  | .doubleAmpersand => some "&&"
  | .equals => some "="
  | .doubleEquals => some "=="
  | .pipe => some "|"
  | .doublePipe => some "||"
  | .minus => some "-"
  | .minusEquals => some "-="
  | .plus => some "+"
  | .plusEquals => some "+="
  | .times => some "*"
  | .timesEquals => some "*="
  | .divide => some "/"
  | .divideEquals => some "/="
  | .atSign => some "@"
  | .doubleAtSign => some "@@"

/-- The kind of a character that is a token whatever follows it. -/
def punctuation? : Char → Option Kind
  | ':' => some .colon
  | '(' => some .leftParen
  | ')' => some .rightParen
  | '#' => some .hash
  | '\x27' => some .singleQuote
  | '\x22' => some .doubleQuote
  | '.' => some .dot
  | '[' => some .leftBracket
  | ']' => some .rightBracket
  | '\x7b' => some .leftBrace
  | '\x7d' => some .rightBrace
  | ',' => some .comma
  | '%' => some .percent
  | '<' => some .lessThan
  | '>' => some .greaterThan
  | ';' => some .semicolon
  | '!' => some .exclamation
  | '?' => some .question
  | '\\' => some .backslash
  | '\x60' => some .backtick
  | '_' => some .underscore
  | '^' => some .caret
  | _ => none

end Kind

/-- An operator character that one more character turns into a longer operator. -/
structure Operator where
  /-- The character that extends the operator. -/
  extension : Char
  /-- The kind when the extension does not follow. -/
  single : Kind
  /-- The kind when the extension follows. -/
  extended : Kind
deriving DecidableEq, Repr

/-- The operator that a character starts. -/
def Operator.ofChar? : Char → Option Operator
  | '&' => some ⟨'&', .ampersand, .doubleAmpersand⟩
  | '=' => some ⟨'=', .equals, .doubleEquals⟩
  | '|' => some ⟨'|', .pipe, .doublePipe⟩
  | '-' => some ⟨'=', .minus, .minusEquals⟩
  | '+' => some ⟨'=', .plus, .plusEquals⟩
  | '*' => some ⟨'=', .times, .timesEquals⟩
  | '/' => some ⟨'=', .divide, .divideEquals⟩
  | '@' => some ⟨'@', .atSign, .doubleAtSign⟩
  | _ => none

end RubyLex

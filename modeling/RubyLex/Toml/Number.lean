import RubyLex.Toml.Node
import RubyLex.Toml.Quoted

/-!
# Reading TOML numbers and truth values

Whole numbers have 64 bits and a sign, and may be written in four bases. Of other numbers it only
matters whether they are well formed and not too large.
-/

namespace RubyLex.Toml

/-- The digits after the first, of which each may follow an underscore. -/
def moreDigits (isDigit : Char → Bool) : List Char → List Char × List Char
  | '_' :: d :: rest =>
    if isDigit d then
      let (ds, after) := moreDigits isDigit rest
      (d :: ds, after)
    else ([], '_' :: d :: rest)
  | d :: rest =>
    if isDigit d then
      let (ds, after) := moreDigits isDigit rest
      (d :: ds, after)
    else ([], d :: rest)
  | [] => ([], [])

/-- One digit or more, with single underscores between them. -/
def digits? (isDigit : Char → Bool) : List Char → Option (List Char × List Char)
  | d :: rest =>
    if isDigit d then
      let (ds, after) := moreDigits isDigit rest
      some (d :: ds, after)
    else none
  | [] => none

/-- The number that digits stand for. -/
def ofDigits (base : Nat) (ds : List Char) : Nat :=
  ds.foldl (fun n d => n * base + (hexValue? d).getD 0) 0

/-- Whether a minus stands in front, and the text after a sign. -/
def sign : List Char → Bool × List Char
  | '-' :: rest => (true, rest)
  | '+' :: rest => (false, rest)
  | cs => (false, cs)

/-- The digits of a whole number without a zero in front of others. -/
def decimal? : List Char → Option (List Char × List Char)
  | '0' :: rest => some (['0'], rest)
  | cs => digits? Char.isDigit cs

/-- The least whole number that is too large for 64 bits and a sign. -/
def integerBound : Nat :=
  0x8000000000000000

/-- Reads digits in a base that a mark announced. -/
def marked? (base : Nat) (isDigit : Char → Bool) (cs : List Char) : Option (Node × List Char) :=
  (digits? isDigit cs).bind fun (ds, rest) =>
    if ofDigits base ds < integerBound then some (.integer (ofDigits base ds), rest) else none

/-- Reads a whole number in 64 bits. -/
def integer? : List Char → Option (Node × List Char)
  | '0' :: 'x' :: rest => marked? 16 (fun c => (hexValue? c).isSome) rest
  | '0' :: 'o' :: rest => marked? 8 (fun c => '0' ≤ c && c ≤ '7') rest
  | '0' :: 'b' :: rest => marked? 2 (fun c => c == '0' || c == '1') rest
  | cs =>
    let (negative, cs) := sign cs
    (decimal? cs).bind fun (ds, rest) =>
      let n := ofDigits 10 ds
      if negative then if n ≤ integerBound then some (.integer (-n), rest) else none
      else if n < integerBound then some (.integer n, rest) else none

/-- Reads the digits after a point, and after them an exponent, or only an exponent. Gives the
digits and the power of ten of the last of them. -/
def fraction? (whole cs : List Char) : Option ((List Char × Int) × List Char) :=
  let exponent? : List Char → Option (Int × List Char) := fun cs =>
    match cs with
    | e :: rest =>
      if e = 'e' ∨ e = 'E' then
        let (negative, rest) := sign rest
        (digits? Char.isDigit rest).map fun (ds, rest) =>
          (if negative then -(ofDigits 10 ds : Int) else ofDigits 10 ds, rest)
      else none
    | [] => none
  match cs with
  | '.' :: rest =>
    (digits? Char.isDigit rest).map fun (ds, rest) =>
      match exponent? rest with
      | some (e, rest) => ((whole ++ ds, e - ds.length), rest)
      | none => ((whole ++ ds, -ds.length), rest)
  | cs => (exponent? cs).map fun (e, rest) => ((whole, e), rest)

/-- Whether a decimal number is too large for a double: it is as near to the next power of two as
to the greatest double, or nearer. Its size in digits decides all but a few cases. -/
def overflows (ds : List Char) (exponent : Int) : Bool :=
  let ds := ds.dropWhile (· == '0')
  let size := ds.length + exponent
  if ds = [] ∨ size ≤ 308 then false
  else if 310 < size then true
  else
    let bound := Nat.pow 2 1024 - Nat.pow 2 970
    if 0 ≤ exponent then bound ≤ ofDigits 10 ds * Nat.pow 10 exponent.toNat
    else bound * Nat.pow 10 (-exponent).toNat ≤ ofDigits 10 ds

/-- Reads a number with a point or an exponent, or one of the words for what is no number. -/
def float? (cs : List Char) : Option (Node × List Char) :=
  let (negative, cs) := sign cs
  match cs with
  | 'i' :: 'n' :: 'f' :: rest => some (.float, rest)
  | 'n' :: 'a' :: 'n' :: rest => some (.float, rest)
  | cs =>
    (decimal? cs).bind fun (whole, rest) =>
      (fraction? whole rest).bind fun ((ds, exponent), rest) =>
        if !negative && overflows ds exponent then none else some (.float, rest)

/-- Reads a truth value. -/
def boolean? : List Char → Option (Node × List Char)
  | 't' :: 'r' :: 'u' :: 'e' :: rest => some (.boolean true, rest)
  | 'f' :: 'a' :: 'l' :: 's' :: 'e' :: rest => some (.boolean false, rest)
  | _ => none

end RubyLex.Toml

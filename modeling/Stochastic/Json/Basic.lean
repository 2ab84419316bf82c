import Stochastic.Decimal.Shortest

/-!
# JSON values and tokens

A JSON value keeps what its text says: numbers as numerals, the members of an
object in order and with repetitions.  A text with an escape that names no
character (half of a surrogate pair) has no reading, which is not an error until
somebody asks for it.

## Main definitions

* `Json`, `Token` — values, and the units their text consists of.
* `Json.tokens`, `Json.render` — the compact text of a value.
* `Json.ofFloat` — a float as a value.
-/

namespace Stochastic

open Decimal (Numeral Layout)

/-- A JSON value. -/
inductive Json where
  | null
  | bool (b : Bool)
  | number (n : Numeral)
  /-- A text, or none if one of its escapes names no character. -/
  | text (s : Option String)
  | array (items : List Json)
  | object (members : List (Option String × Json))
  deriving Inhabited

/-- A unit of JSON text. -/
inductive Token where
  | openArray
  | closeArray
  | openObject
  | closeObject
  | comma
  | colon
  | null
  | bool (b : Bool)
  | number (n : Numeral)
  | text (s : Option String)
  deriving DecidableEq

namespace Json

/-! ## Building values -/

/-- A text value. -/
def str (s : String) : Json := .text (some s)

/-- An integer value. -/
def int (i : Int) : Json := .number (Numeral.ofInt i)

/-- A natural number value. -/
def nat (n : Nat) : Json := .int n

/-- An object with the given members. -/
def obj (members : List (String × Json)) : Json :=
  .object (members.map fun m => (some m.1, m.2))

/-- Numbers are written with the fewest digits that read back, positionally from
`10 ^ -5` up to `10 ^ 16`; a positive exponent carries a plus sign, and a tie goes to
the even digit. -/
def floatLayout : Layout := ⟨-5, 16, true, .even⟩

/-- A float as a value; one that is not finite has no numeral and becomes
null. -/
def ofFloat (x : Float) : Json :=
  if x.isFinite then .number (floatLayout.numeral x) else .null

end Json

/-! ## The text of a token -/

namespace Token

/-- The four hexadecimal digits of a code below `0x10000`. -/
def hexCode (n : Nat) : List Char :=
  let ds := Nat.toDigits 16 n
  List.replicate (4 - ds.length) '0' ++ ds

/-- The spelling of a character inside a JSON text. -/
def escape (c : Char) : List Char :=
  if c = '"' then ['\\', '"']
  else if c = '\\' then ['\\', '\\']
  else if c = '\n' then ['\\', 'n']
  else if c = '\r' then ['\\', 'r']
  else if c = '\t' then ['\\', 't']
  else if c = '\x08' then ['\\', 'b']
  else if c = '\x0c' then ['\\', 'f']
  else if c.toNat < 0x20 then '\\' :: 'u' :: hexCode c.toNat
  else [c]

/-- The characters of a token.  A text without a reading is written as the
replacement character. -/
def chars : Token → List Char
  | .openArray => ['[']
  | .closeArray => [']']
  | .openObject => ['\x7b']
  | .closeObject => ['\x7d']
  | .comma => [',']
  | .colon => [':']
  | .null => "null".toList
  | .bool true => "true".toList
  | .bool false => "false".toList
  | .number n => n.chars
  | .text s => '"' :: (s.getD "�").toList.flatMap escape ++ ['"']

end Token

namespace Json

mutual
/-- The tokens of a value, in the order in which they are written. -/
def tokens : Json → List Token
  | .null => [.null]
  | .bool b => [.bool b]
  | .number n => [.number n]
  | .text s => [.text s]
  | .array items => .openArray :: itemTokens items ++ [.closeArray]
  | .object members => .openObject :: memberTokens members ++ [.closeObject]
/-- The tokens of the items of an array, commas between them. -/
def itemTokens : List Json → List Token
  | [] => []
  | [item] => tokens item
  | item :: next :: items => tokens item ++ .comma :: itemTokens (next :: items)
/-- The tokens of the members of an object, commas between them. -/
def memberTokens : List (Option String × Json) → List Token
  | [] => []
  | [(key, value)] => .text key :: .colon :: tokens value
  | (key, value) :: next :: members =>
    .text key :: .colon :: tokens value ++ .comma :: memberTokens (next :: members)
end

/-- The compact text of a value. -/
def render (j : Json) : String := String.ofList (j.tokens.flatMap Token.chars)

end Json

end Stochastic

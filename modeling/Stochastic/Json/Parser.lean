import Stochastic.Json.Basic

/-!
# Reading JSON

The text is first cut into tokens and then read by a machine that keeps the
brackets which are still open.  Reading is strict: no comments, no trailing
commas, no second value.

## Main definitions

* `Token.scan` — the tokens of a text.
* `Json.State`, `Json.State.step` — the reading machine.
* `Json.parse?` — the value that a text spells.
-/

namespace Stochastic

open Decimal (Numeral)

namespace Token

/-! ## Cutting a text into tokens -/

/-- Whether a character may stand between tokens. -/
def isBlank (c : Char) : Bool := c = ' ' || c = '\t' || c = '\n' || c = '\r'

/-- The value of a hexadecimal digit. -/
def hexValue? (c : Char) : Option Nat :=
  if c.isDigit then some (c.toNat - '0'.toNat)
  else if 'a' ≤ c ∧ c ≤ 'f' then some (c.toNat - 'a'.toNat + 10)
  else if 'A' ≤ c ∧ c ≤ 'F' then some (c.toNat - 'A'.toNat + 10)
  else none

/-- The code that four hexadecimal digits spell. -/
def code? (a b c d : Char) : Option Nat := do
  return 4096 * (← hexValue? a) + 256 * (← hexValue? b) + 16 * (← hexValue? c) + (← hexValue? d)

/-- The character that a letter behind a backslash stands for. -/
def escaped? (c : Char) : Option Char :=
  if c = '"' ∨ c = '\\' ∨ c = '/' then some c
  else if c = 'b' then some '\x08'
  else if c = 'f' then some '\x0c'
  else if c = 'n' then some '\n'
  else if c = 'r' then some '\r'
  else if c = 't' then some '\t'
  else none

/-- A character of a quoted text: itself, or half of a surrogate pair, which is
a code that names no character. -/
inductive Unit where
  | char (c : Char)
  | half (code : Nat)

/-- Whether a code is the first half of a surrogate pair. -/
def isHigh (n : Nat) : Bool := 0xD800 ≤ n && n < 0xDC00

/-- Whether a code is the second half of a surrogate pair. -/
def isLow (n : Nat) : Bool := 0xDC00 ≤ n && n < 0xE000

/-- Reads the inside of a quoted text up to the closing quote, which is
dropped, and returns the rest.  Control characters must be escaped. -/
def scanUnits : List Char → Option (List Unit × List Char)
  | [] => none
  | '"' :: cs => some ([], cs)
  | '\\' :: 'u' :: a :: b :: c :: d :: cs => do
    let n ← code? a b c d
    let unit := if isHigh n || isLow n then Unit.half n else Unit.char (Char.ofNat n)
    let (units, rest) ← scanUnits cs
    return (unit :: units, rest)
  | '\\' :: c :: cs => do
    let e ← escaped? c
    let (units, rest) ← scanUnits cs
    return (.char e :: units, rest)
  | c :: cs =>
    if c.toNat < 0x20 ∨ c = '\\' then none
    else do
      let (units, rest) ← scanUnits cs
      return (.char c :: units, rest)

/-- What is left after a quoted text is shorter than what was there. -/
theorem length_lt_of_scanUnits {cs : List Char} {units : List Unit} {rest : List Char}
    (h : scanUnits cs = some (units, rest)) : rest.length < cs.length := by
  fun_induction scanUnits cs generalizing units rest with
  | case1 => simp at h
  | case2 cs =>
    simp only [Option.some.injEq, Prod.mk.injEq] at h
    simp [h.2]
  | case3 a b c d cs ih =>
    simp only [bind, Option.bind_eq_some_iff, pure] at h
    obtain ⟨_, _, ⟨_, _⟩, hs, h⟩ := h
    simp only [Option.some.injEq, Prod.mk.injEq] at h
    have := ih hs
    simp only [List.length_cons, ← h.2]
    omega
  | case4 c cs _ ih =>
    simp only [bind, Option.bind_eq_some_iff, pure] at h
    obtain ⟨_, _, ⟨_, _⟩, hs, h⟩ := h
    simp only [Option.some.injEq, Prod.mk.injEq] at h
    have := ih hs
    simp only [List.length_cons, ← h.2]
    omega
  | case5 => simp at h
  | case6 c cs _ _ _ _ ih =>
    simp only [bind, Option.bind_eq_some_iff, pure] at h
    obtain ⟨⟨_, _⟩, hs, h⟩ := h
    simp only [Option.some.injEq, Prod.mk.injEq] at h
    have := ih hs
    simp only [List.length_cons, ← h.2]
    omega

/-- The characters that the units name: two halves of a surrogate pair in a row
name one character, and a half on its own names none. -/
def unitChars? : List Unit → Option (List Char)
  | [] => some []
  | .char c :: units => (c :: ·) <$> unitChars? units
  | .half h :: .half l :: units =>
    if isHigh h && isLow l then
      (Char.ofNat (0x10000 + (h - 0xD800) * 0x400 + (l - 0xDC00)) :: ·) <$> unitChars? units
    else none
  | .half _ :: _ => none

/-- Whether a character can belong to a number. -/
def isNumeric (c : Char) : Bool := c.isDigit || c = '-' || c = '+' || c = '.' || c = 'e' || c = 'E'

/-- The token that a single character is, if it is one. -/
def ofChar? (c : Char) : Option Token :=
  if c = '[' then some .openArray
  else if c = ']' then some .closeArray
  else if c = '\x7b' then some .openObject
  else if c = '\x7d' then some .closeObject
  else if c = ',' then some .comma
  else if c = ':' then some .colon
  else none

/-- The token that a word is, if it is one. -/
def ofWord? (cs : List Char) : Option Token :=
  if cs = "null".toList then some .null
  else if cs = "true".toList then some (.bool true)
  else if cs = "false".toList then some (.bool false)
  else none

/-- The tokens of a text, none if a part of it is no token. -/
def scan (cs : List Char) : Option (List Token) :=
  match cs with
  | [] => some []
  | c :: cs =>
    if isBlank c then scan cs
    else if c = '"' then
      match h : scanUnits cs with
      | none => none
      | some (units, rest) =>
        have := length_lt_of_scanUnits h
        (.text ((unitChars? units).map String.ofList) :: ·) <$> scan rest
    else if c.isDigit || c = '-' then
      match Numeral.ofChars? (c :: cs.takeWhile isNumeric) with
      | none => none
      | some n => (.number n :: ·) <$> scan (cs.dropWhile isNumeric)
    else
      match ofChar? c with
      | some t => (t :: ·) <$> scan cs
      | none =>
        match ofWord? (c :: cs.takeWhile Char.isAlpha) with
        | none => none
        | some t => (t :: ·) <$> scan (cs.dropWhile Char.isAlpha)
termination_by cs.length
decreasing_by
  all_goals simp only [List.length_cons]
  · omega
  · omega
  · exact Nat.lt_succ_of_le (List.dropWhile_suffix _).length_le
  · omega
  · exact Nat.lt_succ_of_le (List.dropWhile_suffix _).length_le

end Token

namespace Json

/-! ## The reading machine -/

/-- A bracket that is still open, with what it holds so far, last first. -/
inductive Bracket where
  | array (items : List Json)
  | object (members : List (Option String × Json))
  /-- An object whose next value belongs to `key`. -/
  | member (members : List (Option String × Json)) (key : Option String)

/-- What may come next. -/
inductive Expect where
  /-- A value. -/
  | value
  /-- A value or the end of the array that was just opened. -/
  | firstItem
  /-- A key. -/
  | key
  /-- A key or the end of the object that was just opened. -/
  | firstKey
  /-- The colon behind a key. -/
  | colon (key : Option String)
  /-- A comma or a closing bracket behind a value, or the end of the text. -/
  | after (value : Json)

/-- The open brackets, innermost first, and what may come next. -/
structure State where
  brackets : List Bracket
  expect : Expect

/-- At the start no bracket is open and a value must come. -/
def State.start : State := ⟨[], .value⟩

/-- The state behind the first token of a value. -/
def State.enter (brackets : List Bracket) : Token → Option State
  | .null => some ⟨brackets, .after .null⟩
  | .bool b => some ⟨brackets, .after (.bool b)⟩
  | .number n => some ⟨brackets, .after (.number n)⟩
  | .text s => some ⟨brackets, .after (.text s)⟩
  | .openArray => some ⟨.array [] :: brackets, .firstItem⟩
  | .openObject => some ⟨.object [] :: brackets, .firstKey⟩
  | _ => none

/-- The state behind a token, none if it cannot come here. -/
def State.step : State → Token → Option State
  | ⟨bs, .value⟩, t => enter bs t
  | ⟨.array _ :: bs, .firstItem⟩, .closeArray => some ⟨bs, .after (.array [])⟩
  | ⟨bs, .firstItem⟩, t => enter bs t
  | ⟨.object _ :: bs, .firstKey⟩, .closeObject => some ⟨bs, .after (.object [])⟩
  | ⟨bs, .firstKey⟩, .text k => some ⟨bs, .colon k⟩
  | ⟨bs, .key⟩, .text k => some ⟨bs, .colon k⟩
  | ⟨.object ms :: bs, .colon k⟩, .colon => some ⟨.member ms k :: bs, .value⟩
  | ⟨.array is :: bs, .after j⟩, .comma => some ⟨.array (j :: is) :: bs, .value⟩
  | ⟨.array is :: bs, .after j⟩, .closeArray => some ⟨bs, .after (.array (j :: is).reverse)⟩
  | ⟨.member ms k :: bs, .after j⟩, .comma => some ⟨.object ((k, j) :: ms) :: bs, .key⟩
  | ⟨.member ms k :: bs, .after j⟩, .closeObject =>
    some ⟨bs, .after (.object ((k, j) :: ms).reverse)⟩
  | _, _ => none

/-- The value that was read, if nothing is left open. -/
def State.result? : State → Option Json
  | ⟨[], .after j⟩ => some j
  | _ => none

/-- The value that a list of tokens spells. -/
def ofTokens? (ts : List Token) : Option Json :=
  (ts.foldlM State.step State.start).bind State.result?

/-- The value that a text spells, none if it spells none. -/
def parse? (s : String) : Option Json := (Token.scan s.toList).bind ofTokens?

end Json

end Stochastic

import Stochastic.Text.Printable

/-!
# Quoted text

Text between double quotes.  Characters that would end the quotation or have no
visible form are escaped, so that the quoted form shows exactly which characters
the text has.

## Main definitions

* `escape` — the spelling of one character between quotes.
* `quote` — a text between quotes.
-/

namespace Stochastic.Text

/-- The spelling of a character by its code point. -/
def escapeCode (c : Char) : List Char :=
  "\\u\x7b".toList ++ Nat.toDigits 16 c.toNat ++ ['\x7d']

/-- The spelling of one character between double quotes. -/
def escape (c : Char) : List Char :=
  if c = '\x00' then ['\\', '0']
  else if c = '\t' then ['\\', 't']
  else if c = '\r' then ['\\', 'r']
  else if c = '\n' then ['\\', 'n']
  else if c = '"' then ['\\', '"']
  else if c = '\\' then ['\\', '\\']
  else if isPrintable c then [c]
  else escapeCode c

/-- A text between double quotes. -/
def quote (s : String) : String :=
  String.ofList ('"' :: s.toList.flatMap escape ++ ['"'])

end Stochastic.Text

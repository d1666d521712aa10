import Calculus.Text.Printable
import Calculus.Text.Combining

/-!
# Quoted text

A quoted text stands between double quotes and shows every character unambiguously: the quote
and the backslash are escaped, and so is every character that cannot be read on its own.
-/

namespace Calculus.Text

/-- A character by its code point, as `\u` and the hexadecimal number in braces. -/
def escapeByNumber (c : Char) : List Char :=
  ['\\', 'u', '\x7b'] ++ Nat.toDigits 16 c.toNat ++ ['\x7d']

/-- How a character stands inside a quoted text. -/
def escapeChar (c : Char) : List Char :=
  if c = '\x00' then ['\\', '0']
  else if c = '\t' then ['\\', 't']
  else if c = '\n' then ['\\', 'n']
  else if c = '\r' then ['\\', 'r']
  else if c = '\"' ∨ c = '\\' then ['\\', c]
  else if isCombining c ∨ ¬ isPrintable c then escapeByNumber c
  else [c]

/-- The text between double quotes, with escapes. -/
def quoted (s : String) : String :=
  String.ofList ('\"' :: s.toList.flatMap escapeChar ++ ['\"'])

end Calculus.Text

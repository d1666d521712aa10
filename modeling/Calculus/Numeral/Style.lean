import Calculus.Numeral.Shortest

/-!
# Decimal text of a double

A `Style` says how a number is laid out around its shortest digits: up to which size it is
written without an exponent, and whether an integer shows a fraction. Two styles are in use.
`Style.plain` never writes an exponent and shows integers bare, as in names and messages;
`Style.explicit` always shows that the number is a floating-point one, as in outlines.
-/

namespace Calculus.Numeral

/-- How a decimal number is laid out. -/
structure Style where
  /-- Whether a number is written without an exponent, by the weight of its first digit. -/
  positional : Int → Bool
  /-- What follows the digits of an integer written without an exponent. -/
  integerTail : String

/-- Never an exponent, and no fraction on integers. -/
def Style.plain : Style where
  positional _ := true
  integerTail := ""

/-- An exponent below `10 ^ -4` and from `10 ^ 16` on, and `.0` on integers. -/
def Style.explicit : Style where
  positional weight := decide (-4 ≤ weight ∧ weight < 16)
  integerTail := ".0"

/-- The decimal digits of a natural number, the most significant one first. -/
def digitChars (n : Nat) : List Char :=
  if n < 10 then [Nat.digitChar n] else digitChars (n / 10) ++ [Nat.digitChar (n % 10)]

/-- A run of zeros. -/
def zeros (count : Nat) : List Char :=
  List.replicate count '0'

/-- Digits with the point where it belongs, and no exponent. -/
def Style.writePositional (style : Style) (d : Decimal) : List Char :=
  let digits := digitChars d.digits
  match d.exponent with
  | .ofNat n => digits ++ zeros n ++ style.integerTail.toList
  | .negSucc n =>
    let places := n + 1
    if places < digits.length then
      digits.take (digits.length - places) ++ '.' :: digits.drop (digits.length - places)
    else
      '0' :: '.' :: zeros (places - digits.length) ++ digits

/-- One digit before the point, and an exponent without a plus sign. -/
def writeScientific (d : Decimal) : List Char :=
  let digits := digitChars d.digits
  let weight := d.exponent + digits.length - 1
  let fraction := digits.drop 1
  digits.take 1 ++ (if fraction.isEmpty then [] else '.' :: fraction) ++
    'e' :: (if weight < 0 then ['-'] else []) ++ digitChars weight.natAbs

/-- The text of a decimal number without a sign. -/
def Style.writeDecimal (style : Style) (d : Decimal) : List Char :=
  if d.digits = 0 ∨ style.positional (d.exponent + (digitChars d.digits).length - 1) then
    style.writePositional d
  else
    writeScientific d

/-- A minus sign, if asked for, in front of the text. -/
def signed (negative : Bool) (text : List Char) : List Char :=
  if negative then '-' :: text else text

/-- The text of what a double stands for. A zero keeps its sign, and what is not a number has none. -/
def Style.writeBinary (style : Style) : Binary → List Char
  | .nan => "NaN".toList
  | .infinite negative => signed negative "inf".toList
  | .finite negative 0 _ => signed negative (style.writeDecimal ⟨0, 0⟩)
  | .finite negative m q => signed negative (style.writeDecimal (shortest m q))

/-- The text of a double. -/
def Style.write (style : Style) (x : Float) : String :=
  String.ofList (style.writeBinary (.ofFloat x))

/-- The text of a double as it stands in names and messages. -/
def text (x : Float) : String :=
  Style.plain.write x

/-- The text of a double that shows it to be a floating-point number. -/
def explicitText (x : Float) : String :=
  Style.explicit.write x

end Calculus.Numeral

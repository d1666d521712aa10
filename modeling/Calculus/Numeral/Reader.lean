/-!
# Reading a double

`read` accepts an optional sign and then either `inf`, `infinity` or `nan` in any case, or
decimal digits with an optional point (digits on at least one side of it) and an optional
exponent with at least one digit. The value is rounded to the nearest double. Nothing else is
accepted: no blanks, no separators.
-/

namespace Calculus.Numeral

/-- Why a text is not a number. -/
inductive ReadError where
  | empty
  | invalid
  deriving DecidableEq

/-- What is told about a text that is not a number. -/
def ReadError.message : ReadError → String
  | .empty => "cannot parse float from empty string"
  | .invalid => "invalid float literal"

/-- Split a text after its leading digits. -/
def spanDigits (cs : List Char) : List Char × List Char :=
  cs.span Char.isDigit

/-- The number that decimal digits stand for. -/
def digitsValue (ds : List Char) : Nat :=
  ds.foldl (fun n d => 10 * n + (d.toNat - '0'.toNat)) 0

/-- Split a text after an optional sign; the flag tells whether the sign is a minus. -/
def splitSign : List Char → Bool × List Char
  | '-' :: cs => (true, cs)
  | '+' :: cs => (false, cs)
  | cs => (false, cs)

/-- The exponent at the end of a numeral: nothing, or `e`, an optional sign and digits. -/
def readExponent? : List Char → Option Int
  | [] => some 0
  | c :: cs =>
    if c = 'e' ∨ c = 'E' then
      let (negative, ds) := splitSign cs
      if ds.isEmpty ∨ ¬ ds.all Char.isDigit then none
      else if negative then some (- (digitsValue ds : Int))
      else some (digitsValue ds)
    else none

/-- The double nearest to `digits · 10 ^ exponent`. Beyond `10 ^ 310` and below `10 ^ -330` the
answer does not depend on the digits, and the power of ten is not formed. -/
def nearestDouble (digits : List Char) (exponent : Int) : Float :=
  let significant := digits.dropWhile (· = '0')
  let size := significant.length + exponent
  if significant.isEmpty ∨ size < -330 then 0.0
  else if 310 < size then 1.0 / 0.0
  else Float.ofScientific (digitsValue significant) (exponent < 0) exponent.natAbs

/-- Digits with an optional point and an optional exponent. -/
def readDecimal? (cs : List Char) : Option Float :=
  let (whole, rest) := spanDigits cs
  let (fraction, rest) :=
    match rest with
    | '.' :: rest => spanDigits rest
    | rest => ([], rest)
  if whole.isEmpty ∧ fraction.isEmpty then none
  else
    (readExponent? rest).map fun exponent =>
      nearestDouble (whole ++ fraction) (exponent - fraction.length)

/-- A number without its sign: one of the three words in any case, or a decimal. -/
def readUnsigned? (cs : List Char) : Option Float :=
  let word := String.ofList (cs.map Char.toLower)
  if word = "inf" ∨ word = "infinity" then some (1.0 / 0.0)
  else if word = "nan" then some (0.0 / 0.0)
  else readDecimal? cs

/-- Read a double from a text. -/
def read (s : String) : Except ReadError Float :=
  if s.isEmpty then .error .empty
  else
    let (negative, cs) := splitSign s.toList
    match readUnsigned? cs with
    | some x => .ok (if negative then -x else x)
    | none => .error .invalid

end Calculus.Numeral

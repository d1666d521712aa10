/-!
# Doubles as scaled integers

The bits of a double stand for one of three things: no number, an infinity, or a finite value
`± mantissa · 2 ^ exponent`. `Binary.ofFloat` reads them off. Everything that has to be exact
about a double (its decimal text, its value as a rational) starts from this view, so that the
rest is integer arithmetic.
-/

namespace Calculus.Numeral

/-- What a double stands for. A finite one has the value `± mantissa · 2 ^ exponent`; both
zeros have mantissa `0`. -/
inductive Binary where
  | nan
  | infinite (negative : Bool)
  | finite (negative : Bool) (mantissa : Nat) (exponent : Int)
  deriving DecidableEq

/-- The exponent of the smallest doubles: every finite double is an integer times
`2 ^ leastExponent`. -/
def leastExponent : Int := -1074

/-- The mantissa at which a binade starts, `2 ^ 52`; the doubles below it lie twice as close. -/
def binadeStart : Nat := 0x10000000000000

/-- Decode a 64-bit word: one sign bit, eleven exponent bits, fifty-two fraction bits. -/
def Binary.ofBits (bits : Nat) : Binary :=
  let negative := decide (bits / 0x8000000000000000 = 1)
  let biased : Nat := bits / binadeStart % 0x800
  let fraction := bits % binadeStart
  if biased = 0x7ff then
    if fraction = 0 then .infinite negative else .nan
  else if biased = 0 then
    .finite negative fraction leastExponent
  else
    .finite negative (binadeStart + fraction) (leastExponent + biased - 1)

/-- What the double `x` stands for. -/
def Binary.ofFloat (x : Float) : Binary :=
  .ofBits x.toBits.toNat

end Calculus.Numeral

/-!
# Arithmetic

What an evaluator has to know about numbers: how a double is read as a number, the operations,
and the two tests that decide whether an operation is defined. Doubles are the arithmetic the
library computes with; any other one can be put in its place to say what an expression means.
-/

namespace Calculus

universe u

/-- The operations an expression is evaluated with. -/
structure Arithmetic (α : Type u) where
  /-- The number a double stands for. -/
  ofFloat : Float → α
  add : α → α → α
  sub : α → α → α
  mul : α → α → α
  div : α → α → α
  pow : α → α → α
  ln : α → α
  sin : α → α
  cos : α → α
  /-- Whether a number counts as zero. -/
  isZero : α → Bool
  /-- Whether a number lies outside the domain of the logarithm. -/
  isNonpos : α → Bool

/-- Double-precision arithmetic. Both zeros count as zero; what is not a number is in the domain
of the logarithm. -/
def binary64 : Arithmetic Float where
  ofFloat x := x
  add x y := x + y
  sub x y := x - y
  mul x y := x * y
  div x y := x / y
  pow := Float.pow
  ln := Float.log
  sin := Float.sin
  cos := Float.cos
  isZero x := x == 0.0
  isNonpos x := decide (x ≤ 0.0)

end Calculus

import Calculus.Arithmetic
import Calculus.Expr.Rendering

/-!
# Evaluation

`Expr.evalIn` computes an expression in any arithmetic, with any values for its variables. Three
things fail: dividing by zero, raising zero to the power of zero, and the logarithm of a number
that is not positive. Operands are evaluated from left to right, except that the denominator of a
division comes before its numerator; the first failure ends the evaluation. Its spans point into
the rendering of the whole expression.
-/

namespace Calculus

universe u

namespace Expr

/-- The value of an expression. -/
def evalIn {α : Type u} (A : Arithmetic α) (ρ : Variable → α) : Expr → Except (Error α) α
  | .const c => .ok (A.ofFloat c.value)
  | .var v => .ok (ρ v)
  | .binary op l r => do
    let left := (l.evalIn A ρ).mapError (Error.shift leftStart)
    let right := (r.evalIn A ρ).mapError (Error.shift (rightStart op l))
    match op with
    | .add => return A.add (← left) (← right)
    | .sub => return A.sub (← left) (← right)
    | .mul => return A.mul (← left) (← right)
    | .div =>
      let denominator ← right
      if A.isZero denominator then
        throw ⟨[(binary .div l r).span, rightSpan .div l r], .divisionByZero⟩
      else
        return A.div (← left) denominator
    | .pow =>
      let base ← left
      let exponent ← right
      if A.isZero base && A.isZero exponent then
        throw ⟨[(binary .pow l r).span, leftSpan l, rightSpan .pow l r], .undefinedResult⟩
      else
        return A.pow base exponent
  | .call f a => do
    let operand ← (a.evalIn A ρ).mapError (Error.shift (argumentStart f))
    match f with
    | .ln =>
      if A.isNonpos operand then
        throw ⟨[(call .ln a).span, argumentSpan .ln a], .invalidDomain operand⟩
      else
        return A.ln operand
    | .sin => return A.sin operand
    | .cos => return A.cos operand

/-- The value of an expression in doubles, with the present values of its variables. -/
def eval (s : Store) (e : Expr) : Except (Error Float) Float :=
  e.evalIn binary64 s.value

end Expr

end Calculus

import Calculus.Proofs.Simplification.Failures
import Calculus.Proofs.Simplification.Value

/-!
# The verdict of a failed simplification

A simplification that fails says that the expression divides by zero whatever its variables are.
The verdict is never wrong on finite values: an evaluation fails as well, unless something in the
expression is infinite or not a number.

That simplification keeps values is of no help here, because it does so only where no minus sign is
lost. Less is enough, and it survives the loss: what simplifies to zero is zero
(`beq_zero_of_vanishes`). A rule yields a zero only from an operand that is one, by a sum,
difference, product or quotient that is then zero as well; a rule that hands on an operand, with or
without its sign, hands on one that is not zero.
-/

namespace Calculus

open Double

namespace Expr

variable {L : Library} {ρ : Variable → Float}

/-- A node that is reduced to a zero is zero, if those of its operands are that have become zeros. -/
theorem apply_beq_zero_of_reduces {rule : Rule} {op : BinOp} {l r s : Expr} {a b : Float}
    (h : Reduces rule (.binary op l r) s) (zero : s.isZero)
    (ha : l.isZero → (a == 0.0) = true) (hb : r.isZero → (b == 0.0) = true)
    (fa : a.isFinite) (fb : b.isFinite) (hop : op.Defined L.arithmetic a b) :
    (op.apply L.arithmetic a b == 0.0) = true := by
  cases h with
  | addZeros zl zr => exact (Double.add_zero a (hb zr)).beq_zero.trans (ha zl)
  | subZeros zl zr => exact (Double.sub_zero a (hb zr)).beq_zero.trans (ha zl)
  | mulZero z =>
    rcases z with zl | zr
    · exact Double.zero_mul (ha zl) fb
    · exact Double.mul_zero fa (hb zr)
  | zeroDiv zl => exact Double.zero_div (ha zl) fb hop
  -- The other rules hand on an operand that is not a zero.
  | zeroAdd _ nonzero | zeroSub _ nonzero | oneMul _ nonzero _ =>
    rw [nonzero] at zero
    cases zero
  | addZero nonzero _ | subZero nonzero _ | mulOne nonzero _ _ _ | divOne nonzero _ =>
    rw [nonzero] at zero
    cases zero

/-- What simplifies to zero is zero, where all its subexpressions are finite. -/
theorem beq_zero_of_vanishes {e : Expr} {v : Float} (vanishes : e.Vanishes)
    (finite : e.Everywhere (FiniteIn L ρ)) (value : e.evalIn L.arithmetic ρ = .ok v) :
    (v == 0.0) = true := by
  induction e generalizing v with
  | const c =>
    obtain ⟨s, hs, zero⟩ := vanishes
    cases hs
    exact beq_zero_of_isZero zero value
  | var x =>
    obtain ⟨s, hs, zero⟩ := vanishes
    cases hs
    cases zero
  | binary op l r ihl ihr =>
    obtain ⟨s, hs, zero⟩ := vanishes
    obtain ⟨-, finiteL, finiteR⟩ := everywhere_binary.1 finite
    obtain ⟨a, b, ha, hb, hop, rfl⟩ := evalIn_binary_eq_ok_iff.1 value
    obtain ⟨l', r', hl, hr, -, ⟨rule, reduction⟩ | ⟨-, rfl⟩⟩ := simplify_binary_eq_ok_iff.1 hs
    · exact apply_beq_zero_of_reduces reduction zero (fun z => ihl ⟨l', hl, z⟩ finiteL ha)
        (fun z => ihr ⟨r', hr, z⟩ finiteR hb) (finiteL.self.isFinite ha)
        (finiteR.self.isFinite hb) hop
    · cases zero
  | call f a ih =>
    obtain ⟨s, hs, zero⟩ := vanishes
    obtain ⟨a', -, rfl⟩ := simplify_call_eq_ok_iff.1 hs
    cases zero

/-- An expression with a doomed division has no value where all its subexpressions are finite. -/
theorem evalIn_ne_ok_of_doomed {e l r : Expr} {p : Position}
    (division : e.subexpr? p = some (.binary .div l r)) (vanishes : r.Vanishes)
    (finite : e.Everywhere (FiniteIn L ρ)) (v : Float) : e.evalIn L.arithmetic ρ ≠ .ok v := by
  intro value
  obtain ⟨w, hw⟩ := everywhere_ok_of_evalIn value p _ division
  obtain ⟨a, b, -, hb, nonzero, -⟩ := evalIn_binary_eq_ok_iff.1 hw
  obtain ⟨-, -, finiteR⟩ := everywhere_binary.1 (finite.subexpr division)
  have zero := beq_zero_of_vanishes vanishes finiteR hb
  exact absurd (zero.symm.trans nonzero) (by decide)

/-- **The verdict.** An expression that cannot be simplified has no value, whatever its variables
are, or some subexpression of it is infinite or not a number. -/
theorem eval_fails_or_not_finite_of_simplify_error (store : Store) (e : Expr) (err : Error Float)
    (h : e.simplify = .error err) :
    (∃ failure, e.eval store = .error failure) ∨
      ∃ p t v, e.subexpr? p = some t ∧ t.eval store = .ok v ∧ (v.isInf ∨ v.isNaN) := by
  cases value : e.eval store with
  | error failure => exact .inl ⟨failure, rfl⟩
  | ok v =>
    right
    obtain ⟨p, found, -⟩ := simplify_eq_error_iff.1 h
    obtain ⟨l, r, -, -, -, division, vanishes, -⟩ := firstDoomed?_eq_some found
    by_contra none
    refine evalIn_ne_ok_of_doomed (L := .native) division vanishes ?_ v value
    intro q t ht
    obtain ⟨w, hw⟩ := everywhere_ok_of_evalIn value q t ht
    refine ⟨w, hw, Classical.byContradiction fun infinite => none ⟨q, t, w, ht, hw, ?_⟩⟩
    exact isInf_or_isNaN (Bool.eq_false_iff.2 infinite)

/-- The denominator loses a minus sign on its way to zero. With an infinite `x` the expression has a
value, and its denominator is not a number. -/
theorem eval_fails_or_not_finite_of_infinite_factor :
    let x := var ⟨"x", 0⟩
    let e := one / ((zero - x) * zero) + var ⟨"y", 1⟩
    let store : Store := ⟨#[1.0 / 0.0, 2.0]⟩
    e.simplify = .error ⟨[⟨1, 20⟩, ⟨6, 19⟩], .alwaysDividesByZero⟩ ∧
      ((∃ failure, e.eval store = .error failure) ∨
        ∃ p t v, e.subexpr? p = some t ∧ t.eval store = .ok v ∧ (v.isInf ∨ v.isNaN)) := by
  intro x e store
  have verdict : e.simplify = .error ⟨[⟨1, 20⟩, ⟨6, 19⟩], .alwaysDividesByZero⟩ := rfl
  exact ⟨verdict, eval_fails_or_not_finite_of_simplify_error store e _ verdict⟩

end Expr

end Calculus

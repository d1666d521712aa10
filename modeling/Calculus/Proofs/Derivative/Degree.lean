import Calculus.Proofs.Derivative.Leaves

/-!
# Polynomials and their degrees

An expression is a polynomial in `x` by its structure: nothing is multiplied out and no terms are
compared, so `x - x` has degree one, and so has `0 * x`. What does not depend on `x` is a
polynomial of degree zero, whatever it is made of.

The degrees of two operands tell which of them depend on `x` (`HasDegree.dependence`), and so which
formula a rule takes. Every formula gives a polynomial again, of one degree less
(`HasDegree.derivative`). So the derivatives of a polynomial stay away from the reserved zero as
long as they have a degree to lose, and reach it with the next one.
-/

namespace Calculus

namespace Expr

/-- The expression is a polynomial in `x`, of the given degree. -/
inductive HasDegree (x : Variable) : Expr → Nat → Prop where
  | independent {e : Expr} (h : e.dependsOn x = false) : HasDegree x e 0
  | var {v : Variable} (h : v.sameName x = true) : HasDegree x (.var v) 1
  | add {l r : Expr} {m n : Nat} (hl : HasDegree x l m) (hr : HasDegree x r n) :
    HasDegree x (.binary .add l r) (max m n)
  | sub {l r : Expr} {m n : Nat} (hl : HasDegree x l m) (hr : HasDegree x r n) :
    HasDegree x (.binary .sub l r) (max m n)
  | mul {l r : Expr} {m n : Nat} (hl : HasDegree x l m) (hr : HasDegree x r n) :
    HasDegree x (.binary .mul l r) (m + n)
  | div {l r : Expr} {m : Nat} (hl : HasDegree x l m) (hr : r.dependsOn x = false) :
    HasDegree x (.binary .div l r) m

namespace HasDegree

variable {x : Variable} {e l r : Expr} {d m n : Nat}

theorem of_eq (h : e.HasDegree x m) (same : m = n) : e.HasDegree x n :=
  same ▸ h

theorem const (c : Constant) : (Expr.const c).HasDegree x 0 :=
  .independent rfl

/-- The degree of a polynomial is positive exactly if the variable occurs in it. -/
theorem dependsOn_eq (h : e.HasDegree x d) : e.dependsOn x = decide (0 < d) := by
  induction h with
  | independent h => exact h
  | var h => exact h
  | add hl hr ihl ihr | sub hl hr ihl ihr | mul hl hr ihl ihr =>
    rw [dependsOn, ihl, ihr, ← Bool.decide_or]
    exact decide_eq_decide.2 (by omega)
  | div hl hr ih => rw [dependsOn, ih, hr, Bool.or_false]

/-- Which operands depend on the variable, from their degrees. -/
theorem dependence (hl : l.HasDegree x m) (hr : r.HasDegree x n) :
    Dependence.of x l r =
      match m, n with
      | 0, 0 => .neither
      | _ + 1, 0 => .left
      | 0, _ + 1 => .right
      | _ + 1, _ + 1 => .both := by
  rw [Dependence.of, hl.dependsOn_eq, hr.dependsOn_eq]
  cases m <;> cases n <;> rfl

/-- The derivative of a polynomial is a polynomial, of one degree less. -/
theorem derivative (h : e.HasDegree x d) : (e.derivative x).HasDegree x (d - 1) := by
  induction h with
  | independent h =>
    rw [derivative_of_not_dependsOn h]
    exact const _
  | var h =>
    rw [derivative_var, if_pos h]
    exact const _
  | @add l r m n hl hr ihl ihr =>
    rw [derivative_binary, hl.dependence hr]
    rcases m with _ | m <;> rcases n with _ | n
    · exact const _
    · exact ihr.of_eq (by omega)
    · exact ihl.of_eq (by omega)
    · exact (ihl.add ihr).of_eq (by omega)
  | @sub l r m n hl hr ihl ihr =>
    rw [derivative_binary, hl.dependence hr]
    rcases m with _ | m <;> rcases n with _ | n
    · exact const _
    · exact ((const _).mul ihr).of_eq (by omega)
    · exact ihl.of_eq (by omega)
    · exact (ihl.sub ihr).of_eq (by omega)
  | @mul l r m n hl hr ihl ihr =>
    rw [derivative_binary, hl.dependence hr]
    rcases m with _ | m <;> rcases n with _ | n
    · exact const _
    · exact (hl.mul ihr).of_eq (by omega)
    · exact (ihl.mul hr).of_eq (by omega)
    -- Both summands of the product rule have the same degree.
    · exact ((ihl.mul hr).add (hl.mul ihr)).of_eq (by omega)
  | @div l r m hl hr ihl =>
    rw [derivative_binary, hl.dependence (.independent hr)]
    rcases m with _ | m
    · exact const _
    · exact ihl.div hr

theorem nthDerivative (h : e.HasDegree x d) (n : Nat) :
    (e.nthDerivative x n).HasDegree x (d - n) := by
  induction n generalizing e d with
  | zero => exact h
  | succ n ih => exact (ih h.derivative).of_eq (by omega)

end HasDegree

/-- The last of several differentiations can be split off. -/
theorem nthDerivative_succ_last (x : Variable) (n : Nat) (e : Expr) :
    e.nthDerivative x (n + 1) = (e.nthDerivative x n).derivative x := by
  induction n generalizing e with
  | zero => rfl
  | succ n ih => exact ih (e.derivative x)

/-- **Polynomials and their derivatives.** A derivative of a polynomial, of order one or more, is
the reserved zero exactly if its order exceeds the degree. -/
theorem nthDerivative_eq_zero_iff_degree_lt (x : Variable) (e : Expr) (d : Nat)
    (polynomial : e.HasDegree x d) (n : Nat) (positive : 1 ≤ n) :
    e.nthDerivative x n = zero ↔ d < n := by
  obtain ⟨m, rfl⟩ := Nat.exists_eq_add_of_le' positive
  have before := (polynomial.nthDerivative m).dependsOn_eq
  rw [nthDerivative_succ_last, derivative_eq_zero_iff, before, decide_eq_false_iff_not]
  omega

/-- `(x * (x - y)) / y ^ y + sin(y) * x` has degree two in `x`: its second derivative is a tree of
its own, in which `x` does not occur any more. -/
theorem nthDerivative_eq_zero_iff_degree_lt_of_square :
    let x : Variable := ⟨"x", 0⟩
    let y : Variable := ⟨"y", 1⟩
    let e := var x * (var x - var y) / (var y ^ var y) + call .sin (var y) * var x
    e.HasDegree x 2 ∧ e.nthDerivative x 2 ≠ zero ∧ (e.nthDerivative x 2).dependsOn x = false ∧
      e.nthDerivative x 3 = zero := by
  intro x y e
  have square : (var x * (var x - var y)).HasDegree x 2 :=
    .mul (.var rfl) (.sub (.var rfl) (.independent rfl))
  have linear : (call .sin (var y) * var x).HasDegree x 1 := .mul (.independent rfl) (.var rfl)
  have polynomial : e.HasDegree x 2 := (square.div rfl).add linear
  have second := nthDerivative_eq_zero_iff_degree_lt x e 2 polynomial 2 (by decide)
  have third := nthDerivative_eq_zero_iff_degree_lt x e 2 polynomial 3 (by decide)
  exact ⟨polynomial, mt second.1 (by decide), rfl, third.2 (by decide)⟩

end Expr

end Calculus

import Mathlib
import Calculus.Proofs.Evaluation.Reals

/-!
# Evaluation in a field

Expressions can be read in any field. The operations are those of the field, the tests for zero too;
what powers, logarithms, sines and cosines are is left open, and so is the domain of the logarithm.
A `FieldReading` fixes them. All it promises is that the reserved constants stand for the numbers
they are named for, and that lowering an exponent by one divides the power by its base.

`Expr.Yields` says that an evaluation succeeds with a given element. One equivalence for each
operation takes such an evaluation apart and puts it together again.
-/

namespace Calculus

universe u

/-- What expressions mean in a field, as far as the field does not say it. -/
structure FieldReading (K : Type u) [Field K] where
  /-- The element a double stands for. -/
  ofFloat : Float → K
  pow : K → K → K
  ln : K → K
  sin : K → K
  cos : K → K
  /-- Whether an element lies outside the domain of the logarithm. -/
  isNonpos : K → Bool
  ofFloat_zero : ofFloat 0.0 = 0
  ofFloat_one : ofFloat 1.0 = 1
  ofFloat_minusOne : ofFloat (-1.0) = -1
  pow_sub_one (a b : K) (nonzero : a ≠ 0) : pow a (b - 1) = pow a b / a

/-- The arithmetic of a field. -/
def FieldReading.arithmetic {K : Type u} [Field K] [DecidableEq K] (F : FieldReading K) :
    Arithmetic K where
  ofFloat := F.ofFloat
  add a b := a + b
  sub a b := a - b
  mul a b := a * b
  div a b := a / b
  pow := F.pow
  ln := F.ln
  sin := F.sin
  cos := F.cos
  isZero a := decide (a = 0)
  isNonpos := F.isNonpos

/-- The real numbers with their own powers, logarithms, sines and cosines. -/
noncomputable def realReading : FieldReading ℝ where
  ofFloat := (reals (· ^ ·)).ofFloat
  pow := (reals (· ^ ·)).pow
  ln := (reals (· ^ ·)).ln
  sin := (reals (· ^ ·)).sin
  cos := (reals (· ^ ·)).cos
  isNonpos := (reals (· ^ ·)).isNonpos
  ofFloat_zero := reals_ofFloat_zero _
  ofFloat_one := reals_ofFloat_one _
  ofFloat_minusOne := reals_ofFloat_minusOne _
  pow_sub_one a b nonzero := by
    simp only [reals, ite_self]
    exact Real.rpow_sub_one nonzero b

namespace Expr

section Yields

variable {K : Type u} [Field K] [DecidableEq K] {F : FieldReading K} {ρ : Variable → K}
  {e l r : Expr} {a b v : K}

/-- The expression evaluates, in a field, to `a`. -/
def Yields (F : FieldReading K) (ρ : Variable → K) (e : Expr) (a : K) : Prop :=
  e.evalIn F.arithmetic ρ = .ok a

theorem Yields.unique (ha : e.Yields F ρ a) (hb : e.Yields F ρ b) : a = b :=
  Except.ok.inj (ha.symm.trans hb)

theorem Yields.of_eq (ha : e.Yields F ρ a) (h : a = b) : e.Yields F ρ b :=
  h ▸ ha

theorem yields_const {c : Constant} : (const c).Yields F ρ v ↔ F.ofFloat c.value = v :=
  ⟨Except.ok.inj, congrArg Except.ok⟩

theorem yields_zero : zero.Yields F ρ v ↔ v = 0 := by
  rw [eq_comm, ← F.ofFloat_zero]
  exact yields_const

theorem yields_one : one.Yields F ρ v ↔ v = 1 := by
  rw [eq_comm, ← F.ofFloat_one]
  exact yields_const

theorem yields_minusOne : minusOne.Yields F ρ v ↔ v = -1 := by
  rw [eq_comm, ← F.ofFloat_minusOne]
  exact yields_const

/-- An operation that is defined everywhere. -/
theorem yields_of_total {op : BinOp} (total : ∀ a b, op.Defined F.arithmetic a b) :
    (binary op l r).Yields F ρ v ↔
      ∃ a b, l.Yields F ρ a ∧ r.Yields F ρ b ∧ op.apply F.arithmetic a b = v := by
  refine evalIn_binary_eq_ok_iff.trans ?_
  simp only [total, true_and]
  rfl

theorem yields_add :
    (l + r).Yields F ρ v ↔ ∃ a b, l.Yields F ρ a ∧ r.Yields F ρ b ∧ a + b = v :=
  yields_of_total fun _ _ => trivial

theorem yields_sub :
    (l - r).Yields F ρ v ↔ ∃ a b, l.Yields F ρ a ∧ r.Yields F ρ b ∧ a - b = v :=
  yields_of_total fun _ _ => trivial

theorem yields_mul :
    (l * r).Yields F ρ v ↔ ∃ a b, l.Yields F ρ a ∧ r.Yields F ρ b ∧ a * b = v :=
  yields_of_total fun _ _ => trivial

theorem yields_div :
    (l / r).Yields F ρ v ↔ ∃ a b, l.Yields F ρ a ∧ r.Yields F ρ b ∧ b ≠ 0 ∧ a / b = v := by
  refine evalIn_binary_eq_ok_iff.trans ?_
  simp only [BinOp.Defined, FieldReading.arithmetic, decide_eq_false_iff_not]
  rfl

theorem yields_pow :
    (l ^ r).Yields F ρ v ↔
      ∃ a b, l.Yields F ρ a ∧ r.Yields F ρ b ∧ ¬ (a = 0 ∧ b = 0) ∧ F.pow a b = v := by
  refine evalIn_binary_eq_ok_iff.trans ?_
  simp only [BinOp.Defined, FieldReading.arithmetic, decide_eq_true_eq]
  rfl

theorem yields_ln :
    (call .ln e).Yields F ρ v ↔ ∃ a, e.Yields F ρ a ∧ F.isNonpos a = false ∧ F.ln a = v :=
  evalIn_call_eq_ok_iff

end Yields

end Expr

end Calculus

import Mathlib
import Calculus.Numeral.Binary
import Calculus.Proofs.Evaluation.Nodes

/-!
# Evaluation in the real numbers

What an expression means: a constant stands for the number that its double is, operations are
exact, and variables of one name share one value. The tests that make an evaluation fail are those
of doubles. Powers of positive numbers are the real ones; what a power of any other number is
worth is left open, and nothing here depends on it.

`Expr.Worth` says that an evaluation succeeds with a given number. It is built up node by node, by
one lemma for each operation, with the side condition under which that operation does not fail.
-/

namespace Calculus

/-- The number a double stands for; zero if it stands for none. -/
noncomputable def Numeral.Binary.toReal : Numeral.Binary → ℝ
  | .finite negative mantissa exponent =>
    (if negative then -1 else 1) * mantissa * (2 : ℝ) ^ exponent
  | .infinite _ | .nan => 0

open Classical in
/-- Real arithmetic. Powers of numbers that are not positive are those of `beyond`. -/
noncomputable def reals (beyond : ℝ → ℝ → ℝ) : Arithmetic ℝ where
  ofFloat x := (Numeral.Binary.ofFloat x).toReal
  add x y := x + y
  sub x y := x - y
  mul x y := x * y
  div x y := x / y
  pow x y := if 0 < x then x ^ y else beyond x y
  ln := Real.log
  sin := Real.sin
  cos := Real.cos
  isZero x := decide (x = 0)
  isNonpos x := decide (x ≤ 0)

/-- The valuation that gives variables of one name one value. -/
def byName {α : Type*} (values : String → α) (v : Variable) : α :=
  values v.name

section Tests

variable (beyond : ℝ → ℝ → ℝ)

@[simp] theorem reals_isZero_eq_false (x : ℝ) : (reals beyond).isZero x = false ↔ x ≠ 0 := by
  simp [reals]

@[simp] theorem reals_isNonpos_eq_false (x : ℝ) : (reals beyond).isNonpos x = false ↔ 0 < x := by
  simp [reals]

/-- A power of anything but zero is defined. -/
theorem reals_defined_pow {x : ℝ} (hx : x ≠ 0) (y : ℝ) : BinOp.pow.Defined (reals beyond) x y := by
  rintro ⟨zero, -⟩
  rw [(reals_isZero_eq_false beyond x).2 hx] at zero
  cases zero

theorem reals_pow {x : ℝ} (hx : 0 < x) (y : ℝ) : (reals beyond).pow x y = x ^ y :=
  if_pos hx

/-- The reserved constants stand for the numbers they are named for. -/
theorem reals_ofFloat_zero : (reals beyond).ofFloat 0.0 = 0 := by
  have bits : Numeral.Binary.ofFloat 0.0 = .finite false 0 (-1074) := by decide
  show (Numeral.Binary.ofFloat 0.0).toReal = 0
  rw [bits]
  simp [Numeral.Binary.toReal]

theorem reals_ofFloat_one : (reals beyond).ofFloat 1.0 = 1 := by
  have bits : Numeral.Binary.ofFloat 1.0 = .finite false (2 ^ 52) (-52) := by decide
  show (Numeral.Binary.ofFloat 1.0).toReal = 1
  rw [bits]
  norm_num [Numeral.Binary.toReal]

theorem reals_ofFloat_minusOne : (reals beyond).ofFloat (-1.0) = -1 := by
  have bits : Numeral.Binary.ofFloat (-1.0) = .finite true (2 ^ 52) (-52) := by decide
  show (Numeral.Binary.ofFloat (-1.0)).toReal = -1
  rw [bits]
  norm_num [Numeral.Binary.toReal]

end Tests

namespace Expr

/-- The expression evaluates, in the real numbers, to `a`. -/
def Worth (beyond : ℝ → ℝ → ℝ) (values : String → ℝ) (e : Expr) (a : ℝ) : Prop :=
  e.evalIn (reals beyond) (byName values) = .ok a

namespace Worth

variable {beyond : ℝ → ℝ → ℝ} {values : String → ℝ} {e l r : Expr} {a b : ℝ}

theorem unique (ha : e.Worth beyond values a) (hb : e.Worth beyond values b) : a = b :=
  Except.ok.inj (ha.symm.trans hb)

theorem of_eq (ha : e.Worth beyond values a) (h : a = b) : e.Worth beyond values b :=
  h ▸ ha

theorem const (c : Constant) : (Expr.const c).Worth beyond values ((reals beyond).ofFloat c.value) :=
  rfl

theorem zero : Expr.zero.Worth beyond values 0 :=
  (const .zero).of_eq (reals_ofFloat_zero beyond)

theorem one : Expr.one.Worth beyond values 1 :=
  (const .one).of_eq (reals_ofFloat_one beyond)

theorem minusOne : Expr.minusOne.Worth beyond values (-1) :=
  (const .minusOne).of_eq (reals_ofFloat_minusOne beyond)

theorem var (v : Variable) : (Expr.var v).Worth beyond values (values v.name) :=
  rfl

theorem binary (op : BinOp) (hl : l.Worth beyond values a) (hr : r.Worth beyond values b)
    (h : op.Defined (reals beyond) a b) :
    (Expr.binary op l r).Worth beyond values (op.apply (reals beyond) a b) :=
  evalIn_binary_eq_ok_iff.2 ⟨a, b, hl, hr, h, rfl⟩

theorem call (f : Func) (ha : e.Worth beyond values a) (h : f.Defined (reals beyond) a) :
    (Expr.call f e).Worth beyond values (f.apply (reals beyond) a) :=
  evalIn_call_eq_ok_iff.2 ⟨a, ha, h, rfl⟩

theorem add (hl : l.Worth beyond values a) (hr : r.Worth beyond values b) :
    (l + r).Worth beyond values (a + b) :=
  hl.binary .add hr trivial

theorem sub (hl : l.Worth beyond values a) (hr : r.Worth beyond values b) :
    (l - r).Worth beyond values (a - b) :=
  hl.binary .sub hr trivial

theorem mul (hl : l.Worth beyond values a) (hr : r.Worth beyond values b) :
    (l * r).Worth beyond values (a * b) :=
  hl.binary .mul hr trivial

theorem div (hl : l.Worth beyond values a) (hr : r.Worth beyond values b) (nonzero : b ≠ 0) :
    (l / r).Worth beyond values (a / b) :=
  hl.binary .div hr ((reals_isZero_eq_false beyond b).2 nonzero)

theorem pow (hl : l.Worth beyond values a) (hr : r.Worth beyond values b) (positive : 0 < a) :
    (l ^ r).Worth beyond values (a ^ b) := by
  rw [← reals_pow beyond positive b]
  exact hl.binary .pow hr (reals_defined_pow beyond positive.ne' b)

theorem ln (ha : e.Worth beyond values a) (positive : 0 < a) :
    (Expr.call .ln e).Worth beyond values (Real.log a) :=
  ha.call .ln ((reals_isNonpos_eq_false beyond a).2 positive)

theorem sin (ha : e.Worth beyond values a) : (Expr.call .sin e).Worth beyond values (Real.sin a) :=
  ha.call .sin trivial

theorem cos (ha : e.Worth beyond values a) : (Expr.call .cos e).Worth beyond values (Real.cos a) :=
  ha.call .cos trivial

end Worth

end Expr

end Calculus

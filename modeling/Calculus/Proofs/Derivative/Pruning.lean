import Mathlib
import Calculus.Proofs.Derivative.Rules
import Calculus.Proofs.Derivative.Slope
import Calculus.Proofs.Evaluation.Fields

/-!
# Pruning changes nothing

Differentiation leaves out the parts of a rule that are zero because an operand does not depend on
the variable. The plain derivative leaves nothing out: every operator takes its full rule, and every
call the chain rule. Wherever the plain derivative has a value, in any field, the pruned one has the
same.

The comparison is one of expressions, not of numbers: `RefinedBy` is a preorder that nodes respect.
An operand that does not depend on the variable has the derivative `0`, and its plain derivative is
refined by that. So all that has to be shown of the short rules is that they refine the full rule
with a `0` in it, once for each operator; no separate argument about independent operands is needed.
-/

namespace Calculus

universe u

namespace Expr

/-- The derivative by `x` without a look at which operands depend on it. -/
def plainDerivative (x : Variable) : Expr → Expr
  | .const _ => zero
  | .var v => if v.sameName x then one else zero
  | .binary op l r => op.fullRule l r (l.plainDerivative x) (r.plainDerivative x)
  | .call f a => f.chainRule a (a.plainDerivative x)

section Refinement

variable {α : Type u} {A : Arithmetic α} {ρ : Variable → α}
  {e e' e'' l l' r r' dl dl' dr dr' u u' du du' : Expr}

/-- Whatever `e` evaluates to, `e'` evaluates to as well. -/
def RefinedBy (A : Arithmetic α) (ρ : Variable → α) (e e' : Expr) : Prop :=
  ∀ v, e.evalIn A ρ = .ok v → e'.evalIn A ρ = .ok v

namespace RefinedBy

theorem refl (e : Expr) : e.RefinedBy A ρ e :=
  fun _ h => h

theorem trans (h : e.RefinedBy A ρ e') (h' : e'.RefinedBy A ρ e'') : e.RefinedBy A ρ e'' :=
  fun v hv => h' v (h v hv)

theorem node (op : BinOp) (hl : l.RefinedBy A ρ l') (hr : r.RefinedBy A ρ r') :
    (binary op l r).RefinedBy A ρ (binary op l' r') := by
  intro v h
  obtain ⟨a, b, ha, hb, defined, rfl⟩ := evalIn_binary_eq_ok_iff.1 h
  exact evalIn_binary_eq_ok_iff.2 ⟨a, b, hl a ha, hr b hb, defined, rfl⟩

theorem application (f : Func) (hu : u.RefinedBy A ρ u') :
    (call f u).RefinedBy A ρ (call f u') := by
  intro v h
  obtain ⟨a, ha, defined, rfl⟩ := evalIn_call_eq_ok_iff.1 h
  exact evalIn_call_eq_ok_iff.2 ⟨a, hu a ha, defined, rfl⟩

theorem congruence : Congruence (RefinedBy A ρ) where
  binary op := node op
  call f := application f
  one := refl one
  minusOne := refl minusOne

/-- The derivatives of the operands can be refined in a full rule. -/
theorem fullRule (op : BinOp) (l r : Expr) (hl : dl.RefinedBy A ρ dl')
    (hr : dr.RefinedBy A ρ dr') :
    (op.fullRule l r dl dr).RefinedBy A ρ (op.fullRule l r dl' dr') :=
  congruence.fullRule op (refl l) (refl r) hl hr

/-- The derivative of the operand can be refined in a chain rule. -/
theorem chainRule (f : Func) (u : Expr) (hu : du.RefinedBy A ρ du') :
    (f.chainRule u du).RefinedBy A ρ (f.chainRule u du') :=
  congruence.chainRule f (refl u) hu

end RefinedBy

end Refinement

section Rules

variable {K : Type u} [Field K] [DecidableEq K] {F : FieldReading K} {ρ : Variable → K}
  {l r dl dr u : Expr} {v : K}

/-- The product rule evaluates both operands and both derivatives. -/
theorem yields_fullRule_mul (h : (BinOp.mul.fullRule l r dl dr).Yields F ρ v) :
    ∃ a b a' b', l.Yields F ρ a ∧ r.Yields F ρ b ∧ dl.Yields F ρ a' ∧ dr.Yields F ρ b' ∧
      v = a' * b + a * b' := by
  obtain ⟨_, _, left, right, rfl⟩ := yields_add.1 h
  obtain ⟨a', b, hdl, hr, rfl⟩ := yields_mul.1 left
  obtain ⟨a, b', hl, hdr, rfl⟩ := yields_mul.1 right
  exact ⟨a, b, a', b', hl, hr, hdl, hdr, rfl⟩

/-- The quotient rule evaluates both operands and both derivatives, where the denominator is not
zero. -/
theorem yields_fullRule_div (h : (BinOp.div.fullRule l r dl dr).Yields F ρ v) :
    ∃ a b a' b', l.Yields F ρ a ∧ r.Yields F ρ b ∧ dl.Yields F ρ a' ∧ dr.Yields F ρ b' ∧
      b ≠ 0 ∧ v = (b * a' - a * b') / (b * b) := by
  obtain ⟨_, _, numerator, square, nonzero, rfl⟩ := yields_div.1 h
  obtain ⟨_, _, left, right, rfl⟩ := yields_sub.1 numerator
  obtain ⟨b, a', hr, hdl, rfl⟩ := yields_mul.1 left
  obtain ⟨a, b', hl, hdr, rfl⟩ := yields_mul.1 right
  obtain ⟨b₁, b₂, h₁, h₂, rfl⟩ := yields_mul.1 square
  obtain rfl := hr.unique h₁
  obtain rfl := hr.unique h₂
  exact ⟨a, b, a', b', hl, hr, hdl, hdr, left_ne_zero_of_mul nonzero, rfl⟩

/-- The power rule evaluates both operands and both derivatives, where the base is not zero and has
a logarithm. -/
theorem yields_fullRule_pow (h : (BinOp.pow.fullRule l r dl dr).Yields F ρ v) :
    ∃ a b a' b', l.Yields F ρ a ∧ r.Yields F ρ b ∧ dl.Yields F ρ a' ∧ dr.Yields F ρ b' ∧
      a ≠ 0 ∧ F.isNonpos a = false ∧
      v = b * F.pow a b / a * a' + F.pow a b * F.ln a * b' := by
  obtain ⟨_, _, left, right, rfl⟩ := yields_add.1 h
  obtain ⟨_, a', quotient, hdl, rfl⟩ := yields_mul.1 left
  obtain ⟨_, a, product, hl, nonzero, rfl⟩ := yields_div.1 quotient
  obtain ⟨b, p, hr, power, rfl⟩ := yields_mul.1 product
  obtain ⟨_, b', growth, hdr, rfl⟩ := yields_mul.1 right
  obtain ⟨p', _, power', logarithm, rfl⟩ := yields_mul.1 growth
  obtain ⟨a₂, hl₂, domain, rfl⟩ := yields_ln.1 logarithm
  obtain rfl := power.unique power'
  obtain ⟨a₁, b₁, hl₁, hr₁, -, rfl⟩ := yields_pow.1 power
  obtain rfl := hl.unique hl₁
  obtain rfl := hl.unique hl₂
  obtain rfl := hr.unique hr₁
  exact ⟨a, b, a', b', hl, hr, hdl, hdr, nonzero, domain, rfl⟩

/-- The left rule refines the full rule where the right operand has the derivative `0`. -/
theorem fullRule_refinedBy_leftRule (op : BinOp) :
    (op.fullRule l r dl zero).RefinedBy F.arithmetic ρ (op.leftRule l r dl) := by
  intro v h
  cases op with
  | add =>
    obtain ⟨a', b', hdl, hz, rfl⟩ := yields_add.1 h
    obtain rfl := yields_zero.1 hz
    exact hdl.of_eq (add_zero a').symm
  | sub =>
    obtain ⟨a', b', hdl, hz, rfl⟩ := yields_sub.1 h
    obtain rfl := yields_zero.1 hz
    exact hdl.of_eq (sub_zero a').symm
  | mul =>
    obtain ⟨a, b, a', b', -, hr, hdl, hz, rfl⟩ := yields_fullRule_mul h
    obtain rfl := yields_zero.1 hz
    have slope : a' * b = a' * b + a * 0 := by ring
    exact yields_mul.2 ⟨a', b, hdl, hr, slope⟩
  | div =>
    obtain ⟨a, b, a', b', -, hr, hdl, hz, nonzero, rfl⟩ := yields_fullRule_div h
    obtain rfl := yields_zero.1 hz
    have slope : a' / b = (b * a' - a * 0) / (b * b) := by
      rw [mul_zero, sub_zero, mul_div_mul_left a' b nonzero]
    exact yields_div.2 ⟨a', b, hdl, hr, nonzero, slope⟩
  | pow =>
    obtain ⟨a, b, a', b', hl, hr, hdl, hz, nonzero, -, rfl⟩ := yields_fullRule_pow h
    obtain rfl := yields_zero.1 hz
    have exponent : (r - one).Yields F ρ (b - 1) := yields_sub.2 ⟨b, 1, hr, yields_one.2 rfl, rfl⟩
    have power : (l ^ (r - one)).Yields F ρ (F.pow a (b - 1)) :=
      yields_pow.2 ⟨a, b - 1, hl, exponent, fun zeros => nonzero zeros.1, rfl⟩
    have slope : b * F.pow a (b - 1) * a' =
        b * F.pow a b / a * a' + F.pow a b * F.ln a * 0 := by
      rw [F.pow_sub_one a b nonzero]
      ring
    exact yields_mul.2 ⟨_, a', yields_mul.2 ⟨b, _, hr, power, rfl⟩, hdl, slope⟩

/-- The right rule refines the full rule where the left operand has the derivative `0`. -/
theorem fullRule_refinedBy_rightRule (op : BinOp) :
    (op.fullRule l r zero dr).RefinedBy F.arithmetic ρ (op.rightRule l r dr) := by
  intro v h
  cases op with
  | add =>
    obtain ⟨a', b', hz, hdr, rfl⟩ := yields_add.1 h
    obtain rfl := yields_zero.1 hz
    exact hdr.of_eq (zero_add b').symm
  | sub =>
    obtain ⟨a', b', hz, hdr, rfl⟩ := yields_sub.1 h
    obtain rfl := yields_zero.1 hz
    have slope : -1 * b' = 0 - b' := by ring
    exact yields_mul.2 ⟨-1, b', yields_minusOne.2 rfl, hdr, slope⟩
  | mul =>
    obtain ⟨a, b, a', b', hl, -, hz, hdr, rfl⟩ := yields_fullRule_mul h
    obtain rfl := yields_zero.1 hz
    have slope : a * b' = 0 * b + a * b' := by ring
    exact yields_mul.2 ⟨a, b', hl, hdr, slope⟩
  | div =>
    obtain ⟨a, b, a', b', hl, hr, hz, hdr, nonzero, rfl⟩ := yields_fullRule_div h
    obtain rfl := yields_zero.1 hz
    have opposite : (minusOne * l).Yields F ρ (-1 * a) :=
      yields_mul.2 ⟨-1, a, yields_minusOne.2 rfl, hl, rfl⟩
    have numerator : (minusOne * l * dr).Yields F ρ (-1 * a * b') :=
      yields_mul.2 ⟨_, b', opposite, hdr, rfl⟩
    have square : (r * r).Yields F ρ (b * b) := yields_mul.2 ⟨b, b, hr, hr, rfl⟩
    have slope : -1 * a * b' / (b * b) = (b * 0 - a * b') / (b * b) := by ring
    exact yields_div.2 ⟨_, _, numerator, square, mul_ne_zero nonzero nonzero, slope⟩
  | pow =>
    obtain ⟨a, b, a', b', hl, hr, hz, hdr, nonzero, domain, rfl⟩ := yields_fullRule_pow h
    obtain rfl := yields_zero.1 hz
    have power : (l ^ r).Yields F ρ (F.pow a b) :=
      yields_pow.2 ⟨a, b, hl, hr, fun zeros => nonzero zeros.1, rfl⟩
    have growth : (l ^ r * call .ln l).Yields F ρ (F.pow a b * F.ln a) :=
      yields_mul.2 ⟨_, _, power, yields_ln.2 ⟨a, hl, domain, rfl⟩, rfl⟩
    have slope : F.pow a b * F.ln a * b' =
        b * F.pow a b / a * 0 + F.pow a b * F.ln a * b' := by ring
    exact yields_mul.2 ⟨_, b', growth, hdr, slope⟩

/-- A product with `0` is refined by `0`. -/
theorem mul_zero_refinedBy_zero (e : Expr) : (e * zero).RefinedBy F.arithmetic ρ zero := by
  intro v h
  obtain ⟨a, z, -, hz, rfl⟩ := yields_mul.1 h
  obtain rfl := yields_zero.1 hz
  exact yields_zero.2 (mul_zero a)

/-- The left rule with a derivative of `0` is refined by `0`. -/
theorem leftRule_refinedBy_zero (op : BinOp) :
    (op.leftRule l r zero).RefinedBy F.arithmetic ρ zero := by
  cases op with
  | add | sub => exact .refl zero
  | mul =>
    intro v h
    obtain ⟨z, b, hz, -, rfl⟩ := yields_mul.1 h
    obtain rfl := yields_zero.1 hz
    exact yields_zero.2 (zero_mul b)
  | div =>
    intro v h
    obtain ⟨z, b, hz, -, -, rfl⟩ := yields_div.1 h
    obtain rfl := yields_zero.1 hz
    exact yields_zero.2 (zero_div b)
  | pow => exact mul_zero_refinedBy_zero _

theorem chainRule_refinedBy_zero (f : Func) :
    (f.chainRule u zero).RefinedBy F.arithmetic ρ zero := by
  cases f with
  | ln | sin | cos => exact mul_zero_refinedBy_zero _

end Rules

section Pruning

variable {K : Type u} [Field K] [DecidableEq K]

/-- The derivative refines the plain derivative. -/
theorem plainDerivative_refinedBy (F : FieldReading K) (ρ : Variable → K) (x : Variable)
    (e : Expr) : (e.plainDerivative x).RefinedBy F.arithmetic ρ (e.derivative x) := by
  induction e with
  | const c => exact .refl zero
  | var v => exact .refl _
  | binary op l r ihl ihr =>
    refine (RefinedBy.fullRule op l r ihl ihr).trans ?_
    rw [derivative_binary, Dependence.of]
    -- An operand that does not depend on `x` contributes the derivative `0` to the full rule.
    cases hl : l.dependsOn x <;> cases hr : r.dependsOn x
    · rw [derivative_of_not_dependsOn hl, derivative_of_not_dependsOn hr]
      exact (fullRule_refinedBy_leftRule op).trans (leftRule_refinedBy_zero op)
    · rw [derivative_of_not_dependsOn hl]
      exact fullRule_refinedBy_rightRule op
    · rw [derivative_of_not_dependsOn hr]
      exact fullRule_refinedBy_leftRule op
    · exact .refl _
  | call f a ih =>
    refine (RefinedBy.chainRule f a ih).trans ?_
    rw [derivative_call]
    cases ha : a.dependsOn x with
    | true => exact .refl _
    | false =>
      rw [derivative_of_not_dependsOn ha]
      exact chainRule_refinedBy_zero f

/-- **Pruning changes nothing.** In any field, and with any values for the variables: where the
plain derivative of an expression has a value, its derivative has the same. -/
theorem derivative_yields_of_plainDerivative (F : FieldReading K) (ρ : Variable → K)
    (x : Variable) (e : Expr) (v : K)
    (plain : (e.plainDerivative x).evalIn F.arithmetic ρ = .ok v) :
    (e.derivative x).evalIn F.arithmetic ρ = .ok v :=
  plainDerivative_refinedBy F ρ x e v plain

/-- The derivative of `sin(y) * (x ^ y - y / x)` by `x`, in the real numbers at `x = 2` and
`y = 3`: a factor, an exponent and a numerator do not depend on `x`. -/
theorem derivative_yields_of_plainDerivative_of_reals :
    let x : Variable := ⟨"x", 0⟩
    let y : Variable := ⟨"y", 1⟩
    let e := call .sin (var y) * (var x ^ var y - var y / var x)
    let ρ : Variable → ℝ := byName fun name => if name = "x" then 2 else 3
    ∃ v, (e.plainDerivative x).evalIn realReading.arithmetic ρ = .ok v ∧
      (e.derivative x).evalIn realReading.arithmetic ρ = .ok v := by
  intro x y e ρ
  have hx : (var x).Worth (· ^ ·) (fun name => if name = "x" then 2 else 3) 2 := Worth.var x
  have hy : (var y).Worth (· ^ ·) (fun name => if name = "x" then 2 else 3) 3 := Worth.var y
  have power : (BinOp.pow.fullRule (var x) (var y) one zero).Worth _ _ _ :=
    worth_fullRule hx hy .one .zero two_pos
  have quotient : (BinOp.div.fullRule (var y) (var x) zero one).Worth _ _ _ :=
    worth_fullRule hy hx .zero .one two_ne_zero
  have plain : (e.plainDerivative x).Worth _ _ _ :=
    ((hy.cos.mul .zero).mul ((hx.pow hy two_pos).sub (hy.div hx two_ne_zero))).add
      (hy.sin.mul (power.sub quotient))
  exact ⟨_, plain, derivative_yields_of_plainDerivative realReading ρ x e _ plain⟩

end Pruning

end Expr

end Calculus

import Mathlib
import Calculus.Proofs.Derivative.Slope

/-!
# Mixed derivatives

Differentiating by `x` and then by `y` gives another tree than differentiating by `y` and then by
`x`, because the rules of the second differentiation meet what those of the first have left. In the
real numbers the two trees are worth the same.

The argument is one about formulas, and takes no limit. An expression *moves* with `y` from a
number at a slope if it is worth that number and its derivative by `y` is worth that slope. Moving
is carried through every node, whichever formula the rule of the node takes, and so through the
formulas that the rules of the first differentiation have built. What comes out is `BinOp.bend` or
`Func.bend`: the second derivative of an operation by the chain rule, in which the two variables
can change places.
-/

namespace Calculus

namespace BinOp

/-- No slope comes of operands without one. -/
theorem slope_zero (op : BinOp) (a b : ℝ) : op.slope a b 0 0 = 0 := by
  cases op <;> simp [slope]

/-- How the slope of an operation changes: from the operands `a` and `b`, their slopes by one
variable and by another, and the changes `a₁₂` and `b₁₂` of those slopes. -/
noncomputable def bend (op : BinOp) (a b a₁ b₁ a₂ b₂ a₁₂ b₁₂ : ℝ) : ℝ :=
  match op with
  | .add => a₁₂ + b₁₂
  | .sub => a₁₂ - b₁₂
  | .mul => a₁₂ * b + a * b₁₂ + (a₁ * b₂ + a₂ * b₁)
  | .div =>
    a₁₂ / b - a * b₁₂ / b ^ 2 - (a₁ * b₂ + a₂ * b₁) / b ^ 2 + a * (b₁ * b₂ + b₂ * b₁) / b ^ 3
  | .pow =>
    b * a ^ b / a * a₁₂ + a ^ b * Real.log a * b₁₂ + b * (b - 1) * a ^ b / a ^ 2 * (a₁ * a₂) +
      a ^ b / a * (1 + b * Real.log a) * (a₁ * b₂ + a₂ * b₁) +
      a ^ b * Real.log a ^ 2 * (b₁ * b₂)

theorem bend_zero (op : BinOp) (a b a₂ b₂ : ℝ) : op.bend a b 0 0 a₂ b₂ 0 0 = 0 := by
  cases op <;> simp [bend]

/-- The two variables can change places. -/
theorem bend_comm (op : BinOp) (a b a₁ b₁ a₂ b₂ a₁₂ b₁₂ : ℝ) :
    op.bend a b a₁ b₁ a₂ b₂ a₁₂ b₁₂ = op.bend a b a₂ b₂ a₁ b₁ a₁₂ b₁₂ := by
  cases op <;> simp only [bend] <;> ring

end BinOp

namespace Func

/-- How the slope of a function changes, from its argument and the slopes of that. -/
noncomputable def bend (f : Func) (a a₁ a₂ a₁₂ : ℝ) : ℝ :=
  match f with
  | .ln => a₁₂ / a - a₁ * a₂ / a ^ 2
  | .sin => Real.cos a * a₁₂ - Real.sin a * (a₁ * a₂)
  | .cos => -(Real.sin a * a₁₂) - Real.cos a * (a₁ * a₂)

theorem slope_zero (f : Func) (a : ℝ) : f.slope a 0 = 0 := by
  cases f <;> simp [slope]

theorem bend_zero (f : Func) (a a₂ : ℝ) : f.bend a 0 a₂ 0 = 0 := by
  cases f <;> simp [bend]

theorem bend_comm (f : Func) (a a₁ a₂ a₁₂ : ℝ) : f.bend a a₁ a₂ a₁₂ = f.bend a a₂ a₁ a₁₂ := by
  cases f <;> simp only [bend] <;> ring

end Func

namespace Expr

variable {beyond : ℝ → ℝ → ℝ} {values : String → ℝ} {x y : Variable}

/-- The expression is worth `a`, and its derivative by `y` is worth `a'`. -/
structure Moves (beyond : ℝ → ℝ → ℝ) (values : String → ℝ) (y : Variable) (e : Expr) (a a' : ℝ) :
    Prop where
  value : e.Worth beyond values a
  slope : (e.derivative y).Worth beyond values a'

namespace Moves

variable {e l r : Expr} {a b a' b' : ℝ}

theorem of_eq {c c' : ℝ} (h : e.Moves beyond values y a a') (value : a = c) (slope : a' = c') :
    e.Moves beyond values y c c' :=
  ⟨h.value.of_eq value, h.slope.of_eq slope⟩

theorem zero : Expr.zero.Moves beyond values y 0 0 :=
  ⟨.zero, .zero⟩

theorem one : Expr.one.Moves beyond values y 1 0 :=
  ⟨.one, .zero⟩

theorem minusOne : Expr.minusOne.Moves beyond values y (-1) 0 :=
  ⟨.minusOne, .zero⟩

/-- What does not depend on the variable does not move. -/
theorem of_not_dependsOn (h : e.Worth beyond values a) (independent : e.dependsOn y = false) :
    e.Moves beyond values y a 0 := by
  refine ⟨h, ?_⟩
  rw [derivative_of_not_dependsOn independent]
  exact .zero

theorem slope_eq_zero (h : e.Moves beyond values y a a') (independent : e.dependsOn y = false) :
    a' = 0 := by
  have slope := h.slope
  rw [derivative_of_not_dependsOn independent] at slope
  exact slope.unique .zero

/-- A node moves with its operands, whichever formula its rule takes. -/
theorem binary (op : BinOp) (hl : l.Moves beyond values y a a') (hr : r.Moves beyond values y b b')
    (smooth : op.Smooth a b) :
    (Expr.binary op l r).Moves beyond values y (op.apply (reals beyond) a b)
      (op.slope a b a' b') := by
  refine ⟨hl.value.binary op hr.value (BinOp.defined_of_smooth smooth), ?_⟩
  rw [derivative_binary, Dependence.of]
  cases dl : l.dependsOn y <;> cases dr : r.dependsOn y
  · obtain rfl := hl.slope_eq_zero dl
    obtain rfl := hr.slope_eq_zero dr
    exact Worth.zero.of_eq (op.slope_zero a b).symm
  · obtain rfl := hl.slope_eq_zero dl
    exact worth_rightRule hl.value hr.value hr.slope smooth
  · obtain rfl := hr.slope_eq_zero dr
    exact worth_leftRule hl.value hr.value hl.slope smooth
  · exact worth_fullRule hl.value hr.value hl.slope hr.slope smooth

theorem call (f : Func) (h : e.Moves beyond values y a a') (defined : f.Defined (reals beyond) a) :
    (Expr.call f e).Moves beyond values y (f.apply (reals beyond) a) (f.slope a a') := by
  refine ⟨h.value.call f defined, ?_⟩
  rw [derivative_call]
  cases depends : e.dependsOn y
  · obtain rfl := h.slope_eq_zero depends
    exact Worth.zero.of_eq (f.slope_zero a).symm
  · exact worth_chainRule h.value h.slope defined

theorem add (hl : l.Moves beyond values y a a') (hr : r.Moves beyond values y b b') :
    (l + r).Moves beyond values y (a + b) (a' + b') :=
  hl.binary .add hr trivial

theorem sub (hl : l.Moves beyond values y a a') (hr : r.Moves beyond values y b b') :
    (l - r).Moves beyond values y (a - b) (a' - b') :=
  hl.binary .sub hr trivial

theorem mul (hl : l.Moves beyond values y a a') (hr : r.Moves beyond values y b b') :
    (l * r).Moves beyond values y (a * b) (a' * b + a * b') :=
  hl.binary .mul hr trivial

theorem div (hl : l.Moves beyond values y a a') (hr : r.Moves beyond values y b b')
    (nonzero : b ≠ 0) :
    (l / r).Moves beyond values y (a / b) ((b * a' - a * b') / (b * b)) :=
  hl.binary .div hr nonzero

theorem pow (hl : l.Moves beyond values y a a') (hr : r.Moves beyond values y b b')
    (positive : 0 < a) :
    (l ^ r).Moves beyond values y (a ^ b) (b * a ^ b / a * a' + a ^ b * Real.log a * b') :=
  (hl.binary .pow hr positive).of_eq (reals_pow beyond positive b) rfl

theorem ln (h : e.Moves beyond values y a a') (positive : 0 < a) :
    (Expr.call .ln e).Moves beyond values y (Real.log a) (1 / a * a') :=
  h.call .ln ((reals_isNonpos_eq_false beyond a).2 positive)

theorem sin (h : e.Moves beyond values y a a') :
    (Expr.call .sin e).Moves beyond values y (Real.sin a) (Real.cos a * a') :=
  h.call .sin trivial

theorem cos (h : e.Moves beyond values y a a') :
    (Expr.call .cos e).Moves beyond values y (Real.cos a) (-1 * Real.sin a * a') :=
  h.call .cos trivial

end Moves

section Rules

variable {op : BinOp} {l r dl dr : Expr} {a b a₁ b₁ a₂ b₂ a₁₂ b₁₂ : ℝ}

/-- What the full rule builds moves as the slope of the operation bends. -/
theorem moves_fullRule (hl : l.Moves beyond values y a a₂) (hr : r.Moves beyond values y b b₂)
    (hdl : dl.Moves beyond values y a₁ a₁₂) (hdr : dr.Moves beyond values y b₁ b₁₂)
    (smooth : op.Smooth a b) :
    (op.fullRule l r dl dr).Moves beyond values y (op.slope a b a₁ b₁)
      (op.bend a b a₁ b₁ a₂ b₂ a₁₂ b₁₂) := by
  cases op with
  | add => exact hdl.add hdr
  | sub => exact hdl.sub hdr
  | mul =>
    refine ((hdl.mul hr).add (hl.mul hdr)).of_eq rfl ?_
    simp only [BinOp.bend]
    ring
  | div =>
    have nonzero : b ≠ 0 := smooth
    refine (((hr.mul hdl).sub (hl.mul hdr)).div (hr.mul hr) (mul_ne_zero nonzero nonzero)).of_eq
      rfl ?_
    simp only [BinOp.bend]
    field_simp
    ring
  | pow =>
    have positive : 0 < a := smooth
    have nonzero : a ≠ 0 := positive.ne'
    have power := hl.pow hr positive
    refine ((((hr.mul power).div hl nonzero).mul hdl).add
      ((power.mul (hl.ln positive)).mul hdr)).of_eq rfl ?_
    simp only [BinOp.bend]
    field_simp
    ring

/-- Where the right operand has no slope by `x`, what the left rule builds moves in the same way. -/
theorem moves_leftRule (hl : l.Moves beyond values y a a₂) (hr : r.Moves beyond values y b b₂)
    (hdl : dl.Moves beyond values y a₁ a₁₂) (smooth : op.Smooth a b) :
    (op.leftRule l r dl).Moves beyond values y (op.slope a b a₁ 0)
      (op.bend a b a₁ 0 a₂ b₂ a₁₂ 0) := by
  refine ⟨worth_leftRule hl.value hr.value hdl.value smooth, ?_⟩
  cases op with
  | add => exact hdl.slope.of_eq (add_zero a₁₂).symm
  | sub => exact hdl.slope.of_eq (sub_zero a₁₂).symm
  | mul =>
    refine (hdl.mul hr).slope.of_eq ?_
    simp only [BinOp.bend]
    ring
  | div =>
    have nonzero : b ≠ 0 := smooth
    refine (hdl.div hr nonzero).slope.of_eq ?_
    simp only [BinOp.bend]
    field_simp
    ring
  | pow =>
    have positive : 0 < a := smooth
    have nonzero : a ≠ 0 := positive.ne'
    refine ((hr.mul (hl.pow (hr.sub .one) positive)).mul hdl).slope.of_eq ?_
    simp only [BinOp.bend, Real.rpow_sub_one nonzero]
    field_simp
    ring

/-- Where the left operand has no slope by `x`, what the right rule builds moves in the same way. -/
theorem moves_rightRule (hl : l.Moves beyond values y a a₂) (hr : r.Moves beyond values y b b₂)
    (hdr : dr.Moves beyond values y b₁ b₁₂) (smooth : op.Smooth a b) :
    (op.rightRule l r dr).Moves beyond values y (op.slope a b 0 b₁)
      (op.bend a b 0 b₁ a₂ b₂ 0 b₁₂) := by
  refine ⟨worth_rightRule hl.value hr.value hdr.value smooth, ?_⟩
  cases op with
  | add => exact hdr.slope.of_eq (zero_add b₁₂).symm
  | sub =>
    refine (Moves.minusOne.mul hdr).slope.of_eq ?_
    simp only [BinOp.bend]
    ring
  | mul =>
    refine (hl.mul hdr).slope.of_eq ?_
    simp only [BinOp.bend]
    ring
  | div =>
    have nonzero : b ≠ 0 := smooth
    refine (((Moves.minusOne.mul hl).mul hdr).div (hr.mul hr)
      (mul_ne_zero nonzero nonzero)).slope.of_eq ?_
    simp only [BinOp.bend]
    field_simp
    ring
  | pow =>
    have positive : 0 < a := smooth
    refine (((hl.pow hr positive).mul (hl.ln positive)).mul hdr).slope.of_eq ?_
    have nonzero : a ≠ 0 := positive.ne'
    simp only [BinOp.bend]
    field_simp
    ring

theorem moves_chainRule {f : Func} {u du : Expr} (hu : u.Moves beyond values y a a₂)
    (hdu : du.Moves beyond values y a₁ a₁₂) (defined : f.Defined (reals beyond) a) :
    (f.chainRule u du).Moves beyond values y (f.slope a a₁) (f.bend a a₁ a₂ a₁₂) := by
  refine ⟨worth_chainRule hu.value hdu.value defined, ?_⟩
  cases f with
  | ln =>
    have positive := (reals_isNonpos_eq_false beyond a).1 defined
    have nonzero : a ≠ 0 := positive.ne'
    refine ((Moves.one.div hu nonzero).mul hdu).slope.of_eq ?_
    simp only [Func.bend]
    field_simp
    ring
  | sin =>
    refine (hu.cos.mul hdu).slope.of_eq ?_
    simp only [Func.bend]
    ring
  | cos =>
    refine ((Moves.minusOne.mul hu.sin).mul hdu).slope.of_eq ?_
    simp only [Func.bend]
    ring

/-- The derivative of what does not depend on the variable is zero, and stays so. -/
theorem eq_zero_of_moves_derivative {e : Expr} (h : (e.derivative x).Moves beyond values y a₁ a₁₂)
    (independent : e.dependsOn x = false) : a₁ = 0 ∧ a₁₂ = 0 := by
  rw [derivative_of_not_dependsOn independent] at h
  exact ⟨h.value.unique .zero, h.slope.unique .zero⟩

/-- The derivative of a node by `x` moves with `y` as the slope of the operation bends, whichever
formulas the two differentiations take. -/
theorem moves_derivative_binary (hl : l.Moves beyond values y a a₂)
    (hr : r.Moves beyond values y b b₂) (hdl : (l.derivative x).Moves beyond values y a₁ a₁₂)
    (hdr : (r.derivative x).Moves beyond values y b₁ b₁₂) (smooth : op.Smooth a b) :
    ((binary op l r).derivative x).Moves beyond values y (op.slope a b a₁ b₁)
      (op.bend a b a₁ b₁ a₂ b₂ a₁₂ b₁₂) := by
  rw [derivative_binary, Dependence.of]
  -- An operand that does not depend on `x` brings zeros into the bend of the operation: the terms
  -- that the short formulas leave out.
  cases dl : l.dependsOn x <;> cases dr : r.dependsOn x
  · obtain ⟨rfl, rfl⟩ := eq_zero_of_moves_derivative hdl dl
    obtain ⟨rfl, rfl⟩ := eq_zero_of_moves_derivative hdr dr
    exact Moves.zero.of_eq (op.slope_zero a b).symm (op.bend_zero a b a₂ b₂).symm
  · obtain ⟨rfl, rfl⟩ := eq_zero_of_moves_derivative hdl dl
    exact moves_rightRule hl hr hdr smooth
  · obtain ⟨rfl, rfl⟩ := eq_zero_of_moves_derivative hdr dr
    exact moves_leftRule hl hr hdl smooth
  · exact moves_fullRule hl hr hdl hdr smooth

theorem moves_derivative_call {f : Func} {u : Expr} (hu : u.Moves beyond values y a a₂)
    (hdu : (u.derivative x).Moves beyond values y a₁ a₁₂) (defined : f.Defined (reals beyond) a) :
    ((call f u).derivative x).Moves beyond values y (f.slope a a₁) (f.bend a a₁ a₂ a₁₂) := by
  rw [derivative_call]
  cases depends : u.dependsOn x
  · obtain ⟨rfl, rfl⟩ := eq_zero_of_moves_derivative hdu depends
    exact Moves.zero.of_eq (f.slope_zero a).symm (f.bend_zero a a₂).symm
  · exact moves_chainRule hu hdu defined

/-- The derivative of a variable is a constant, and does not move. -/
theorem exists_moves_var (x y w : Variable) :
    ∃ d, (var w).Moves beyond values x (values w.name) d ∧
      ((var w).derivative x).Moves beyond values y d 0 := by
  cases depends : (var w).dependsOn x with
  | false =>
    refine ⟨0, .of_not_dependsOn (.var w) depends, ?_⟩
    rw [derivative_of_not_dependsOn depends]
    exact .zero
  | true =>
    have slope : (var w).derivative x = one := if_pos depends
    refine ⟨1, ⟨.var w, ?_⟩, ?_⟩
    · rw [slope]
      exact .one
    · rw [slope]
      exact .one

/-- A node that depends on one of the variables has operands at which its operation has a slope. -/
theorem smooth_of_worth_of_either {v : ℝ} (he : (binary op l r).Worth beyond values v)
    (depends : ¬ ((binary op l r).dependsOn x = false ∧ (binary op l r).dependsOn y = false))
    (positiveX : (binary op l r).PositiveBase beyond values x)
    (positiveY : (binary op l r).PositiveBase beyond values y) :
    ∃ a b, l.Worth beyond values a ∧ r.Worth beyond values b ∧ op.Smooth a b := by
  cases dx : (binary op l r).dependsOn x with
  | true => exact smooth_of_worth he dx positiveX
  | false =>
    have dy : (binary op l r).dependsOn y = true := by simpa [dx] using depends
    exact smooth_of_worth he dy positiveY

end Rules

/-- The expression is worth `a`, its derivatives by `x` and by `y` are worth `a₁` and `a₂`, and both
mixed derivatives are worth `a₁₂`. -/
structure Bends (beyond : ℝ → ℝ → ℝ) (values : String → ℝ) (x y : Variable) (e : Expr)
    (a a₁ a₂ a₁₂ : ℝ) : Prop where
  byFirst : e.Moves beyond values x a a₁
  bySecond : e.Moves beyond values y a a₂
  firstBySecond : (e.derivative x).Moves beyond values y a₁ a₁₂
  secondByFirst : (e.derivative y).Moves beyond values x a₂ a₁₂

namespace Bends

variable {e l r : Expr} {a b a₁ b₁ a₂ b₂ a₁₂ b₁₂ : ℝ}

theorem of_not_dependsOn (h : e.Worth beyond values a) (independentX : e.dependsOn x = false)
    (independentY : e.dependsOn y = false) : e.Bends beyond values x y a 0 0 0 := by
  refine ⟨.of_not_dependsOn h independentX, .of_not_dependsOn h independentY, ?_, ?_⟩
  · rw [derivative_of_not_dependsOn independentX]
    exact .zero
  · rw [derivative_of_not_dependsOn independentY]
    exact .zero

theorem binary (op : BinOp) (hl : l.Bends beyond values x y a a₁ a₂ a₁₂)
    (hr : r.Bends beyond values x y b b₁ b₂ b₁₂) (smooth : op.Smooth a b) :
    (Expr.binary op l r).Bends beyond values x y (op.apply (reals beyond) a b)
      (op.slope a b a₁ b₁) (op.slope a b a₂ b₂) (op.bend a b a₁ b₁ a₂ b₂ a₁₂ b₁₂) where
  byFirst := hl.byFirst.binary op hr.byFirst smooth
  bySecond := hl.bySecond.binary op hr.bySecond smooth
  firstBySecond :=
    moves_derivative_binary hl.bySecond hr.bySecond hl.firstBySecond hr.firstBySecond smooth
  secondByFirst := by
    rw [op.bend_comm]
    exact moves_derivative_binary hl.byFirst hr.byFirst hl.secondByFirst hr.secondByFirst smooth

theorem call (f : Func) (h : e.Bends beyond values x y a a₁ a₂ a₁₂)
    (defined : f.Defined (reals beyond) a) :
    (Expr.call f e).Bends beyond values x y (f.apply (reals beyond) a) (f.slope a a₁)
      (f.slope a a₂) (f.bend a a₁ a₂ a₁₂) where
  byFirst := h.byFirst.call f defined
  bySecond := h.bySecond.call f defined
  firstBySecond := moves_derivative_call h.bySecond h.firstBySecond defined
  secondByFirst := by
    rw [f.bend_comm]
    exact moves_derivative_call h.byFirst h.secondByFirst defined

/-- Both mixed derivatives of an expression are worth the same. -/
theorem exists_of_worth {v : ℝ} (he : e.Worth beyond values v)
    (positiveX : e.Everywhere (PositiveBase beyond values x))
    (positiveY : e.Everywhere (PositiveBase beyond values y)) :
    ∃ a₁ a₂ a₁₂, e.Bends beyond values x y v a₁ a₂ a₁₂ := by
  induction e generalizing v with
  | const c => exact ⟨0, 0, 0, .of_not_dependsOn he rfl rfl⟩
  | var w =>
    obtain rfl := he.unique (.var w)
    obtain ⟨a₁, first, firstBySecond⟩ := exists_moves_var x y w
    obtain ⟨a₂, second, secondByFirst⟩ := exists_moves_var y x w
    exact ⟨a₁, a₂, 0, first, second, firstBySecond, secondByFirst⟩
  | binary op l r ihl ihr =>
    by_cases independent :
        (Expr.binary op l r).dependsOn x = false ∧ (Expr.binary op l r).dependsOn y = false
    -- Nothing is known of the base of a power that depends on neither, and nothing need be.
    · exact ⟨0, 0, 0, .of_not_dependsOn he independent.1 independent.2⟩
    · obtain ⟨baseX, leftX, rightX⟩ := everywhere_binary.1 positiveX
      obtain ⟨baseY, leftY, rightY⟩ := everywhere_binary.1 positiveY
      obtain ⟨a, b, wl, wr, smooth⟩ := smooth_of_worth_of_either he independent baseX baseY
      obtain ⟨a₁, a₂, a₁₂, hl⟩ := ihl wl leftX leftY
      obtain ⟨b₁, b₂, b₁₂, hr⟩ := ihr wr rightX rightY
      have node := hl.binary op hr smooth
      obtain rfl := node.byFirst.value.unique he
      exact ⟨_, _, _, node⟩
  | call f u ih =>
    obtain ⟨-, insideX⟩ := everywhere_call.1 positiveX
    obtain ⟨-, insideY⟩ := everywhere_call.1 positiveY
    obtain ⟨a, ha, defined, rfl⟩ := evalIn_call_eq_ok_iff.1 he
    obtain ⟨a₁, a₂, a₁₂, hu⟩ := ih ha insideX insideY
    exact ⟨_, _, _, hu.call f defined⟩

end Bends

/-- **Mixed derivatives agree.** Where an expression has a value in the real numbers, and its powers
that depend on `x` or on `y` have positive bases, its derivative by `x` and then by `y` and its
derivative by `y` and then by `x` have a value too, and it is the same. -/
theorem mixed_derivatives_agree (beyond : ℝ → ℝ → ℝ) (values : String → ℝ) (x y : Variable)
    (e : Expr) (v : ℝ) (value : e.evalIn (reals beyond) (byName values) = .ok v)
    (positiveX : e.Everywhere (PositiveBase beyond values x))
    (positiveY : e.Everywhere (PositiveBase beyond values y)) :
    ∃ d, ((e.derivative x).derivative y).evalIn (reals beyond) (byName values) = .ok d ∧
      ((e.derivative y).derivative x).evalIn (reals beyond) (byName values) = .ok d := by
  obtain ⟨a₁, a₂, a₁₂, h⟩ := Bends.exists_of_worth value positiveX positiveY
  exact ⟨a₁₂, h.firstBySecond.slope, h.secondByFirst.slope⟩

/-- `(x ^ y) / y - z ^ z` at `x = 2` and `y = 3`, with a negative base in the power of `z`. The two
mixed derivatives are different trees. -/
theorem mixed_derivatives_agree_of_power :
    let x : Variable := ⟨"x", 0⟩
    let y : Variable := ⟨"y", 1⟩
    let z : Variable := ⟨"z", 2⟩
    let e := binary .sub (binary .div (binary .pow (var x) (var y)) (var y))
      (binary .pow (var z) (var z))
    let values : String → ℝ := fun name => if name = "x" then 2 else if name = "y" then 3 else -1
    let A := reals fun b p => b ^ p
    (∃ v, e.evalIn A (byName values) = .ok v) ∧
      e.Everywhere (PositiveBase (fun b p => b ^ p) values x) ∧
      e.Everywhere (PositiveBase (fun b p => b ^ p) values y) ∧
      ((e.derivative x).derivative y == (e.derivative y).derivative x) = false ∧
      ∃ d, ((e.derivative x).derivative y).evalIn A (byName values) = .ok d ∧
        ((e.derivative y).derivative x).evalIn A (byName values) = .ok d := by
  intro x y z e values A
  have hx : (var x).Worth (fun b p => b ^ p) values 2 := Worth.var x
  have hy : (var y).Worth (fun b p => b ^ p) values 3 := Worth.var y
  have hz : (var z).Worth (fun b p => b ^ p) values (-1) := Worth.var z
  have negative : BinOp.pow.Defined A (-1) (-1) := reals_defined_pow _ (by norm_num) _
  have value := ((hx.pow hy two_pos).div hy three_ne_zero).sub (hz.binary .pow hz negative)
  have positive (w : Variable) (independent : (binary .pow (var z) (var z)).dependsOn w = false) :
      e.Everywhere (PositiveBase (fun b p => b ^ p) values w) := by
    simp only [e, everywhere_binary, everywhere_var]
    refine ⟨?_, ⟨?_, ⟨?_, ?_, ?_⟩, ?_⟩, ?_, ?_, ?_⟩ <;> rintro l r he depends <;> cases he
    · exact ⟨2, hx, two_pos⟩
    · rw [independent] at depends
      cases depends
  exact ⟨⟨_, value⟩, positive x rfl, positive y rfl, rfl,
    mixed_derivatives_agree _ values x y e _ value (positive x rfl) (positive y rfl)⟩

end Expr

end Calculus

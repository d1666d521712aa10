import Mathlib
import Calculus.Derivative
import Calculus.Proofs.Evaluation.Reals

/-!
# The derivative is the derivative

In the real numbers, the symbolic derivative of an expression is worth the derivative of what the
expression is worth, as a function of the variable. It fails nowhere that the expression does not,
although its rules divide, take logarithms and raise to powers where the expression may not.

`BinOp.slope` and `Func.slope` are the rules of calculus, on numbers. Two things are shown about
them. They are right (`hasDerivAt_apply`). And the formulas the symbolic rules build are worth
them: the full rule always, and the two short ones where the derivative they leave out is zero.
-/

namespace Calculus

open Filter Topology

section Numbers

variable {beyond : ℝ → ℝ → ℝ} {f g : ℝ → ℝ} {f' g' t₀ : ℝ}

namespace BinOp

/-- The slope of an operation, from its operands `a` and `b` and their slopes. -/
noncomputable def slope (op : BinOp) (a b a' b' : ℝ) : ℝ :=
  match op with
  | .add => a' + b'
  | .sub => a' - b'
  | .mul => a' * b + a * b'
  | .div => (b * a' - a * b') / (b * b)
  | .pow => b * a ^ b / a * a' + a ^ b * Real.log a * b'

/-- The operands at which an operation has a slope. -/
def Smooth : BinOp → ℝ → ℝ → Prop
  | .add, _, _ | .sub, _, _ | .mul, _, _ => True
  | .div, _, b => b ≠ 0
  | .pow, a, _ => 0 < a

theorem defined_of_smooth {op : BinOp} {a b : ℝ} (h : op.Smooth a b) :
    op.Defined (reals beyond) a b := by
  cases op with
  | add | sub | mul => trivial
  | div => exact (reals_isZero_eq_false beyond b).2 h
  | pow => exact reals_defined_pow beyond (ne_of_gt h) b

/-- Operands that move continuously stay good for an operation for a while. -/
theorem eventually_smooth {op : BinOp} (hf : ContinuousAt f t₀) (hg : ContinuousAt g t₀)
    (h : op.Smooth (f t₀) (g t₀)) : ∀ᶠ t in 𝓝 t₀, op.Smooth (f t) (g t) := by
  cases op with
  | add | sub | mul => exact Eventually.of_forall fun _ => trivial
  | div => exact hg.eventually_ne h
  | pow => exact hf.eventually (lt_mem_nhds h)

/-- The slopes of sums, differences, products, quotients and powers. -/
theorem hasDerivAt_apply {op : BinOp} (hf : HasDerivAt f f' t₀) (hg : HasDerivAt g g' t₀)
    (h : op.Smooth (f t₀) (g t₀)) :
    HasDerivAt (fun t => op.apply (reals beyond) (f t) (g t))
      (op.slope (f t₀) (g t₀) f' g') t₀ := by
  cases op with
  | add => exact hf.add hg
  | sub => exact hf.sub hg
  | mul => exact hf.mul hg
  | div =>
    refine (hf.div hg h).congr_deriv ?_
    simp only [slope]
    ring
  | pow =>
    have positive : ∀ᶠ t in 𝓝 t₀, 0 < f t := eventually_smooth hf.continuousAt hg.continuousAt h
    have same : (fun t => (reals beyond).pow (f t) (g t)) =ᶠ[𝓝 t₀] fun t => f t ^ g t :=
      positive.mono fun t ht => reals_pow beyond ht (g t)
    refine ((hf.rpow hg h).congr_of_eventuallyEq same).congr_deriv ?_
    rw [Real.rpow_sub_one (ne_of_gt h)]
    simp only [slope]
    ring

end BinOp

namespace Func

/-- The slope of a function, from its argument `a` and the slope of that. -/
noncomputable def slope (f : Func) (a a' : ℝ) : ℝ :=
  match f with
  | .ln => 1 / a * a'
  | .sin => Real.cos a * a'
  | .cos => -1 * Real.sin a * a'

theorem eventually_defined {f : Func} (hg : ContinuousAt g t₀)
    (h : f.Defined (reals beyond) (g t₀)) : ∀ᶠ t in 𝓝 t₀, f.Defined (reals beyond) (g t) := by
  cases f with
  | sin | cos => exact Eventually.of_forall fun _ => trivial
  | ln =>
    have positive := (reals_isNonpos_eq_false beyond (g t₀)).1 h
    refine (hg.eventually (lt_mem_nhds positive)).mono fun t ht => ?_
    exact (reals_isNonpos_eq_false beyond (g t)).2 ht

/-- The slopes of logarithms, sines and cosines. -/
theorem hasDerivAt_apply {f : Func} (hg : HasDerivAt g g' t₀)
    (h : f.Defined (reals beyond) (g t₀)) :
    HasDerivAt (fun t => f.apply (reals beyond) (g t)) (f.slope (g t₀) g') t₀ := by
  cases f with
  | ln =>
    have positive := (reals_isNonpos_eq_false beyond (g t₀)).1 h
    refine (hg.log positive.ne').congr_deriv ?_
    simp only [slope]
    ring
  | sin => exact hg.sin
  | cos =>
    refine hg.cos.congr_deriv ?_
    simp only [slope]
    ring

end Func

end Numbers

namespace Expr

variable {beyond : ℝ → ℝ → ℝ} {values : String → ℝ} {x : Variable}

section Rules

variable {op : BinOp} {l r dl dr : Expr} {a b a' b' : ℝ}

/-- The full rule is worth the slope of the operation. -/
theorem worth_fullRule (hl : l.Worth beyond values a) (hr : r.Worth beyond values b)
    (hdl : dl.Worth beyond values a') (hdr : dr.Worth beyond values b') (h : op.Smooth a b) :
    (op.fullRule l r dl dr).Worth beyond values (op.slope a b a' b') := by
  cases op with
  | add => exact hdl.add hdr
  | sub => exact hdl.sub hdr
  | mul => exact (hdl.mul hr).add (hl.mul hdr)
  | div => exact ((hr.mul hdl).sub (hl.mul hdr)).div (hr.mul hr) (mul_ne_zero h h)
  | pow =>
    have positive : 0 < a := h
    have power := hl.pow hr positive
    exact (((hr.mul power).div hl positive.ne').mul hdl).add ((power.mul (hl.ln positive)).mul hdr)

/-- Where the right operand has no slope, the left rule is worth that of the operation. -/
theorem worth_leftRule (hl : l.Worth beyond values a) (hr : r.Worth beyond values b)
    (hdl : dl.Worth beyond values a') (h : op.Smooth a b) :
    (op.leftRule l r dl).Worth beyond values (op.slope a b a' 0) := by
  cases op with
  | add => exact hdl.of_eq (add_zero a').symm
  | sub => exact hdl.of_eq (sub_zero a').symm
  | mul =>
    have slope : a' * b = a' * b + a * 0 := by ring
    exact (hdl.mul hr).of_eq slope
  | div =>
    have slope : a' / b = (b * a' - a * 0) / (b * b) := by
      rw [mul_zero, sub_zero, mul_div_mul_left a' b h]
    exact (hdl.div hr h).of_eq slope
  | pow =>
    have positive : 0 < a := h
    have slope : b * a ^ (b - 1) * a' = b * a ^ b / a * a' + a ^ b * Real.log a * 0 := by
      rw [Real.rpow_sub_one positive.ne']
      ring
    exact ((hr.mul (hl.pow (hr.sub .one) positive)).mul hdl).of_eq slope

/-- Where the left operand has no slope, the right rule is worth that of the operation. -/
theorem worth_rightRule (hl : l.Worth beyond values a) (hr : r.Worth beyond values b)
    (hdr : dr.Worth beyond values b') (h : op.Smooth a b) :
    (op.rightRule l r dr).Worth beyond values (op.slope a b 0 b') := by
  cases op with
  | add => exact hdr.of_eq (zero_add b').symm
  | sub =>
    have slope : -1 * b' = 0 - b' := by ring
    exact (Worth.minusOne.mul hdr).of_eq slope
  | mul =>
    have slope : a * b' = 0 * b + a * b' := by ring
    exact (hl.mul hdr).of_eq slope
  | div =>
    have slope : -1 * a * b' / (b * b) = (b * 0 - a * b') / (b * b) := by ring
    exact (((Worth.minusOne.mul hl).mul hdr).div (hr.mul hr) (mul_ne_zero h h)).of_eq slope
  | pow =>
    have positive : 0 < a := h
    have slope : a ^ b * Real.log a * b' = b * a ^ b / a * 0 + a ^ b * Real.log a * b' := by ring
    exact (((hl.pow hr positive).mul (hl.ln positive)).mul hdr).of_eq slope

theorem worth_chainRule {f : Func} {e de : Expr} (he : e.Worth beyond values a)
    (hde : de.Worth beyond values a') (h : f.Defined (reals beyond) a) :
    (f.chainRule e de).Worth beyond values (f.slope a a') := by
  cases f with
  | ln =>
    have positive := (reals_isNonpos_eq_false beyond a).1 h
    exact (Worth.one.div he positive.ne').mul hde
  | sin => exact he.cos.mul hde
  | cos => exact (Worth.minusOne.mul he.sin).mul hde

end Rules

/-- The expression, as a function of the variable near its present value, has slope `d` there. -/
def HasSlope (beyond : ℝ → ℝ → ℝ) (values : String → ℝ) (x : Variable) (e : Expr) (d : ℝ) :
    Prop :=
  ∃ f : ℝ → ℝ, (∀ᶠ t in 𝓝 (values x.name), e.Worth beyond (Function.update values x.name t) (f t)) ∧
    HasDerivAt f d (values x.name)

/-- A power that depends on the variable has a positive base. -/
def PositiveBase (beyond : ℝ → ℝ → ℝ) (values : String → ℝ) (x : Variable) (e : Expr) : Prop :=
  ∀ l r, e = .binary .pow l r → e.dependsOn x → ∃ a, l.Worth beyond values a ∧ 0 < a

section Slopes

variable {e l r : Expr} {a b a' b' : ℝ}

/-- The function of an expression takes its present value where it is now. -/
theorem eq_of_tracks {f : ℝ → ℝ} (he : e.Worth beyond values a)
    (h : ∀ᶠ t in 𝓝 (values x.name), e.Worth beyond (Function.update values x.name t) (f t)) :
    f (values x.name) = a := by
  have now := h.self_of_nhds
  rw [Function.update_eq_self] at now
  exact now.unique he

/-- An operation on two functions has the slope that the rules of calculus give it. -/
theorem HasSlope.binary {op : BinOp} (hl : l.Worth beyond values a) (hr : r.Worth beyond values b)
    (sl : l.HasSlope beyond values x a') (sr : r.HasSlope beyond values x b')
    (h : op.Smooth a b) :
    (Expr.binary op l r).HasSlope beyond values x (op.slope a b a' b') := by
  obtain ⟨f, tracksL, hf⟩ := sl
  obtain ⟨g, tracksR, hg⟩ := sr
  obtain rfl := eq_of_tracks hl tracksL
  obtain rfl := eq_of_tracks hr tracksR
  have smooth := BinOp.eventually_smooth hf.continuousAt hg.continuousAt h
  refine ⟨fun t => op.apply (reals beyond) (f t) (g t), ?_, BinOp.hasDerivAt_apply hf hg h⟩
  filter_upwards [tracksL, tracksR, smooth] with t htl htr ht
  exact htl.binary op htr (BinOp.defined_of_smooth ht)

theorem HasSlope.call {f : Func} (he : e.Worth beyond values a) (se : e.HasSlope beyond values x a')
    (h : f.Defined (reals beyond) a) :
    (Expr.call f e).HasSlope beyond values x (f.slope a a') := by
  obtain ⟨g, tracks, hg⟩ := se
  obtain rfl := eq_of_tracks he tracks
  refine ⟨fun t => f.apply (reals beyond) (g t), ?_, Func.hasDerivAt_apply hg h⟩
  filter_upwards [tracks, Func.eventually_defined hg.continuousAt h] with t hte ht
  exact hte.call f ht

/-- The variable's own slope is one. -/
theorem HasSlope.var {v : Variable} (h : v.name = x.name) :
    (Expr.var v).HasSlope beyond values x 1 := by
  refine ⟨id, Eventually.of_forall fun t => ?_, hasDerivAt_id _⟩
  have here : Function.update values x.name t v.name = t := by rw [h, Function.update_self]
  exact (Worth.var v).of_eq here

/-- What does not depend on the variable is not affected by it. -/
theorem evalIn_update_of_not_dependsOn (h : e.dependsOn x = false) (t : ℝ) :
    e.evalIn (reals beyond) (byName (Function.update values x.name t)) =
      e.evalIn (reals beyond) (byName values) := by
  refine evalIn_congr ((dependsOn_eq_false_iff.1 h).imp fun u others v hv => ?_)
  exact Function.update_of_ne (others v hv) t values

theorem HasSlope.of_not_dependsOn (h : e.dependsOn x = false) (he : e.Worth beyond values a) :
    e.HasSlope beyond values x 0 := by
  refine ⟨fun _ => a, Eventually.of_forall fun t => ?_, hasDerivAt_const _ _⟩
  show e.evalIn (reals beyond) (byName (Function.update values x.name t)) = .ok a
  rw [evalIn_update_of_not_dependsOn h]
  exact he

/-- A node that depends on the variable has operands at which its operation has a slope. -/
theorem smooth_of_worth {op : BinOp} {v : ℝ} (h : (Expr.binary op l r).Worth beyond values v)
    (depends : (Expr.binary op l r).dependsOn x)
    (positive : (Expr.binary op l r).PositiveBase beyond values x) :
    ∃ a b, l.Worth beyond values a ∧ r.Worth beyond values b ∧ op.Smooth a b := by
  obtain ⟨a, b, hl, hr, defined, -⟩ := evalIn_binary_eq_ok_iff.1 h
  refine ⟨a, b, hl, hr, ?_⟩
  cases op with
  | add | sub | mul => trivial
  | div => exact (reals_isZero_eq_false beyond b).1 defined
  | pow =>
    obtain ⟨a', hl', base⟩ := positive l r rfl depends
    obtain rfl : a' = a := Worth.unique hl' hl
    exact base

theorem derivative_worth_slope_of_not_dependsOn {v : ℝ} (h : e.dependsOn x = false)
    (he : e.Worth beyond values v) :
    ∃ d, (e.derivative x).Worth beyond values d ∧ e.HasSlope beyond values x d := by
  rw [derivative_of_not_dependsOn h]
  exact ⟨0, .zero, .of_not_dependsOn h he⟩

/-- The derivative is worth the slope of the expression. -/
theorem derivative_worth_slope {v : ℝ} (he : e.Worth beyond values v)
    (positive : e.Everywhere (PositiveBase beyond values x)) :
    ∃ d, (e.derivative x).Worth beyond values d ∧ e.HasSlope beyond values x d := by
  induction e generalizing v with
  | const c => exact derivative_worth_slope_of_not_dependsOn rfl he
  | var w =>
    cases depends : (Expr.var w).dependsOn x with
    | false => exact derivative_worth_slope_of_not_dependsOn depends he
    | true =>
      have same : w.sameName x = true := depends
      rw [derivative_var, same]
      exact ⟨1, .one, .var (eq_of_beq same)⟩
  | binary op l r ihl ihr =>
    cases depends : (Expr.binary op l r).dependsOn x with
    | false => exact derivative_worth_slope_of_not_dependsOn depends he
    | true =>
      obtain ⟨base, positiveL, positiveR⟩ := everywhere_binary.1 positive
      obtain ⟨a, b, wl, wr, smooth⟩ := smooth_of_worth he depends base
      obtain ⟨a', hdl, sl⟩ := ihl wl positiveL
      obtain ⟨b', hdr, sr⟩ := ihr wr positiveR
      -- The rule leaves out an operand that does not depend on the variable: its slope is zero.
      rw [derivative_binary, Dependence.of]
      cases hl : l.dependsOn x <;> cases hr : r.dependsOn x
      · rw [dependsOn, hl, hr] at depends
        cases depends
      · exact ⟨_, worth_rightRule wl wr hdr smooth,
          .binary wl wr (.of_not_dependsOn hl wl) sr smooth⟩
      · exact ⟨_, worth_leftRule wl wr hdl smooth,
          .binary wl wr sl (.of_not_dependsOn hr wr) smooth⟩
      · exact ⟨_, worth_fullRule wl wr hdl hdr smooth, .binary wl wr sl sr smooth⟩
  | call f e ih =>
    cases depends : (Expr.call f e).dependsOn x with
    | false => exact derivative_worth_slope_of_not_dependsOn depends he
    | true =>
      obtain ⟨-, positiveE⟩ := everywhere_call.1 positive
      obtain ⟨a, ha, defined, -⟩ := evalIn_call_eq_ok_iff.1 he
      obtain ⟨a', hde, se⟩ := ih ha positiveE
      have inside : e.dependsOn x = true := depends
      rw [derivative_call, inside]
      exact ⟨_, worth_chainRule ha hde defined, .call ha se defined⟩

end Slopes

/-- **The derivative is the derivative.** Where an expression has a value in the real numbers, and
its powers that depend on `x` have positive bases, its symbolic derivative has a value too: the
derivative of the function that sends `t` to the value of the expression with every variable
called like `x` set to `t`. That function is defined around the present value of `x`. -/
theorem derivative_hasDerivAt (beyond : ℝ → ℝ → ℝ) (values : String → ℝ) (x : Variable) (e : Expr)
    (v : ℝ) (value : e.evalIn (reals beyond) (byName values) = .ok v)
    (positive : e.Everywhere (PositiveBase beyond values x)) :
    ∃ d f, (e.derivative x).evalIn (reals beyond) (byName values) = .ok d ∧
      (∀ᶠ t in 𝓝 (values x.name),
        e.evalIn (reals beyond) (byName (Function.update values x.name t)) = .ok (f t)) ∧
      HasDerivAt f d (values x.name) := by
  obtain ⟨d, worth, f, tracks, slope⟩ := derivative_worth_slope value positive
  exact ⟨d, f, worth, tracks, slope⟩

/-- `sin (x ^ x) / x - y ^ 2` at `x = 2`, with a negative base in the power of `y`. -/
theorem derivative_hasDerivAt_of_powers :
    let x : Variable := ⟨"x", 0⟩
    let y : Variable := ⟨"y", 1⟩
    let two : Constant := ⟨"2", 2.0⟩
    let e := binary .sub (binary .div (call .sin (binary .pow (var x) (var x))) (var x))
      (binary .pow (var y) (const two))
    let values : String → ℝ := fun name => if name = "x" then 2 else -3
    let A := reals fun b p => b ^ p
    (∃ v, e.evalIn A (byName values) = .ok v) ∧
      e.Everywhere (PositiveBase (fun b p => b ^ p) values x) ∧
      ∃ d f, (e.derivative x).evalIn A (byName values) = .ok d ∧
        (∀ᶠ t in 𝓝 (values x.name),
          e.evalIn A (byName (Function.update values x.name t)) = .ok (f t)) ∧
        HasDerivAt f d (values x.name) := by
  intro x y two e values A
  have hx : (var x).Worth (fun b p => b ^ p) values 2 := Worth.var x
  have hy : (var y).Worth (fun b p => b ^ p) values (-3) := Worth.var y
  have square : BinOp.pow.Defined A (-3) (A.ofFloat 2.0) := reals_defined_pow _ (by norm_num) _
  have value := ((hx.pow hx two_pos).sin.div hx two_ne_zero).sub
    (hy.binary .pow (Worth.const two) square)
  have positive : e.Everywhere (PositiveBase (fun b p => b ^ p) values x) := by
    simp only [e, everywhere_binary, everywhere_call, everywhere_var, everywhere_const]
    refine ⟨?_, ⟨?_, ⟨?_, ?_, ?_, ?_⟩, ?_⟩, ?_, ?_, ?_⟩ <;> rintro l r he depends <;> cases he
    · exact ⟨2, hx, two_pos⟩
    · exact absurd depends (by decide)
  exact ⟨⟨_, value⟩, positive, derivative_hasDerivAt _ values x e _ value positive⟩

end Expr

end Calculus

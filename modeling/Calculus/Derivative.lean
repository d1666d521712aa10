import Calculus.Expr.Rendering

/-!
# Derivatives

Differentiation applies the rule of each node and simplifies nothing, except that it looks first
which operands depend on the variable and leaves out the parts of a rule that are zero for lack
of it. So every operator has three formulas: with the derivative of the left operand only, of the
right operand only, and of both.

The rule chosen at a node is announced before its operands are differentiated; `differentiate`
hands every choice to its `note` argument, and `derivative` ignores them.
-/

namespace Calculus

/-- Which operands of a node depend on the variable. -/
inductive Dependence where
  | neither
  | left
  | right
  | both
  deriving DecidableEq

/-- The dependence of two operands on `x`. -/
def Dependence.of (x : Variable) (l r : Expr) : Dependence :=
  match l.dependsOn x, r.dependsOn x with
  | false, false => .neither
  | true, false => .left
  | false, true => .right
  | true, true => .both

/-- The choice of a rule at a node. -/
inductive RuleChoice where
  /-- The rule of an operator, for the operands that depend on the variable. -/
  | operator (op : BinOp) (dependence : Dependence)
  /-- The chain rule, for a call whose operand depends on the variable. -/
  | chain (f : Func)
  /-- No rule, for a call whose operand does not. -/
  | independent (f : Func)
  deriving DecidableEq

namespace BinOp

/-- The derivative of `l op r` where only `l` depends on the variable, and `dl` is its
derivative. -/
def leftRule (op : BinOp) (l r dl : Expr) : Expr :=
  match op with
  | .add => dl
  | .sub => dl
  | .mul => dl * r
  | .div => dl / r
  | .pow => r * l ^ (r - Expr.one) * dl

/-- The derivative of `l op r` where only `r` depends on the variable, and `dr` is its
derivative. -/
def rightRule (op : BinOp) (l r dr : Expr) : Expr :=
  match op with
  | .add => dr
  | .sub => Expr.minusOne * dr
  | .mul => l * dr
  | .div => Expr.minusOne * l * dr / (r * r)
  | .pow => l ^ r * Expr.call .ln l * dr

/-- The derivative of `l op r` from the derivatives `dl` and `dr` of both operands. -/
def fullRule (op : BinOp) (l r dl dr : Expr) : Expr :=
  match op with
  | .add => dl + dr
  | .sub => dl - dr
  | .mul => dl * r + l * dr
  | .div => (r * dl - l * dr) / (r * r)
  | .pow => r * l ^ r / l * dl + l ^ r * Expr.call .ln l * dr

end BinOp

/-- The derivative of `f u`, from the derivative `du` of its operand. -/
def Func.chainRule (f : Func) (u du : Expr) : Expr :=
  match f with
  | .ln => Expr.one / u * du
  | .sin => Expr.call .cos u * du
  | .cos => Expr.minusOne * Expr.call .sin u * du

namespace Expr

universe u v

/-- The derivative by `x`, with every choice of a rule handed to `note`: a node before its
operands, and the left operand before the right one. -/
def differentiate {σ : Type u} (note : σ → RuleChoice → σ) (x : Variable) :
    Expr → σ → Expr × σ
  | .const _, notes => (zero, notes)
  | .var v, notes => (if v.sameName x then one else zero, notes)
  | .binary op l r, notes =>
    let dependence := Dependence.of x l r
    let notes := note notes (.operator op dependence)
    match dependence with
    | .neither => (zero, notes)
    | .left =>
      let (dl, notes) := l.differentiate note x notes
      (op.leftRule l r dl, notes)
    | .right =>
      let (dr, notes) := r.differentiate note x notes
      (op.rightRule l r dr, notes)
    | .both =>
      let (dl, notes) := l.differentiate note x notes
      let (dr, notes) := r.differentiate note x notes
      (op.fullRule l r dl dr, notes)
  | .call f a, notes =>
    if a.dependsOn x then
      let (da, notes) := a.differentiate note x (note notes (.chain f))
      (f.chainRule a da, notes)
    else
      (zero, note notes (.independent f))

/-- Repeat a differentiation that takes notes. -/
def nthDifferentiate {σ : Type u} (note : σ → RuleChoice → σ) (x : Variable) :
    Nat → Expr → σ → Expr × σ
  | 0, e, notes => (e, notes)
  | n + 1, e, notes =>
    let (d, notes) := e.differentiate note x notes
    nthDifferentiate note x n d notes

/-- The derivative by `x`. -/
def derivative (x : Variable) (e : Expr) : Expr :=
  (e.differentiate (fun _ _ => ()) x ()).1

/-- The `n`-th derivative by `x`. -/
def nthDerivative (x : Variable) (n : Nat) (e : Expr) : Expr :=
  (nthDifferentiate (fun _ _ => ()) x n e ()).1

@[simp] theorem derivative_const (x : Variable) (c : Constant) :
    (Expr.const c).derivative x = zero := rfl

@[simp] theorem derivative_var (x v : Variable) :
    (Expr.var v).derivative x = if v.sameName x then one else zero := rfl

theorem derivative_binary (x : Variable) (op : BinOp) (l r : Expr) :
    (Expr.binary op l r).derivative x =
      match Dependence.of x l r with
      | .neither => zero
      | .left => op.leftRule l r (l.derivative x)
      | .right => op.rightRule l r (r.derivative x)
      | .both => op.fullRule l r (l.derivative x) (r.derivative x) := by
  unfold derivative
  rw [differentiate]
  cases Dependence.of x l r <;> rfl

theorem derivative_call (x : Variable) (f : Func) (a : Expr) :
    (Expr.call f a).derivative x =
      if a.dependsOn x then f.chainRule a (a.derivative x) else zero := by
  unfold derivative
  rw [differentiate]
  split <;> rfl

/-- What does not depend on the variable has the derivative zero. -/
theorem derivative_of_not_dependsOn {x : Variable} {e : Expr} (h : e.dependsOn x = false) :
    e.derivative x = zero := by
  cases e with
  | const c => rfl
  | var v =>
    have other : v.sameName x = false := h
    rw [derivative_var, other]
    rfl
  | binary op l r =>
    obtain ⟨hl, hr⟩ := Bool.or_eq_false_iff.1 h
    rw [derivative_binary, Dependence.of, hl, hr]
  | call f a =>
    have inside : a.dependsOn x = false := h
    rw [derivative_call, inside]
    rfl

/-- Taking notes does not change the derivative. -/
@[simp] theorem differentiate_fst {σ : Type u} (note : σ → RuleChoice → σ) (x : Variable)
    (e : Expr) (notes : σ) : (e.differentiate note x notes).1 = e.derivative x := by
  induction e generalizing notes with
  | const c => rfl
  | var v => rfl
  | binary op l r ihl ihr =>
    rw [derivative_binary, differentiate]
    cases Dependence.of x l r with
    | neither => rfl
    | left => simp only [ihl]
    | right => simp only [ihr]
    | both => simp only [ihl, ihr]
  | call f a ih =>
    rw [derivative_call, differentiate]
    split
    · simp only [ih]
    · rfl

@[simp] theorem nthDerivative_zero (x : Variable) (e : Expr) : e.nthDerivative x 0 = e := rfl

theorem nthDerivative_succ (x : Variable) (n : Nat) (e : Expr) :
    e.nthDerivative x (n + 1) = (e.derivative x).nthDerivative x n := rfl

/-- Taking notes does not change the `n`-th derivative. -/
@[simp] theorem nthDifferentiate_fst {σ : Type u} (note : σ → RuleChoice → σ) (x : Variable)
    (n : Nat) (e : Expr) (notes : σ) :
    (nthDifferentiate note x n e notes).1 = e.nthDerivative x n := by
  induction n generalizing e notes with
  | zero => rfl
  | succ n ih =>
    rw [nthDerivative_succ, nthDifferentiate]
    simp only [ih, differentiate_fst]

end Expr

end Calculus

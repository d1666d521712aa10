import Mathlib.Tactic.Ring
import Calculus.Derivative
import Calculus.Proofs.Traversal

/-!
# The growth of derivatives

A derivative has at most twice the square of the nodes that the expression has. Every rule adds to
the derivatives of the operands a number of nodes that is linear in the operands, and the power
rule adds most: it copies the base four times and the exponent three times
(`nodes_derivative_binary_le`).

The bound is attained by `x ^ x`, so the induction has nothing to spare there: it only goes through
because the derivative of a leaf is a leaf, of one node and not of two. Any larger power leaves
enough for the copies in the product of the sizes of its operands.
-/

namespace Calculus

namespace Expr

section Sizes

variable (l r u dl dr du : Expr)

@[simp] theorem nodes_add : (l + r).nodes = l.nodes + r.nodes + 1 := rfl

@[simp] theorem nodes_sub : (l - r).nodes = l.nodes + r.nodes + 1 := rfl

@[simp] theorem nodes_mul : (l * r).nodes = l.nodes + r.nodes + 1 := rfl

@[simp] theorem nodes_div : (l / r).nodes = l.nodes + r.nodes + 1 := rfl

@[simp] theorem nodes_pow : (l ^ r).nodes = l.nodes + r.nodes + 1 := rfl

@[simp] theorem nodes_call (f : Func) : (call f u).nodes = u.nodes + 1 := rfl

@[simp] theorem nodes_zero : zero.nodes = 1 := rfl

@[simp] theorem nodes_one : one.nodes = 1 := rfl

@[simp] theorem nodes_minusOne : minusOne.nodes = 1 := rfl

theorem nodes_leftRule_le (op : BinOp) :
    (op.leftRule l r dl).nodes ≤ dl.nodes + l.nodes + 2 * r.nodes + 5 := by
  cases op <;> simp only [BinOp.leftRule, nodes_mul, nodes_div, nodes_pow, nodes_sub, nodes_one] <;>
    omega

theorem nodes_rightRule_le (op : BinOp) :
    (op.rightRule l r dr).nodes ≤ dr.nodes + 2 * l.nodes + 2 * r.nodes + 5 := by
  cases op <;> simp only [BinOp.rightRule, nodes_mul, nodes_div, nodes_pow, nodes_call,
    nodes_minusOne] <;> omega

theorem nodes_fullRule_le (op : BinOp) :
    (op.fullRule l r dl dr).nodes ≤ dl.nodes + dr.nodes + 4 * l.nodes + 3 * r.nodes + 9 := by
  cases op <;> simp only [BinOp.fullRule, nodes_add, nodes_sub, nodes_mul, nodes_div, nodes_pow,
    nodes_call] <;> omega

theorem nodes_chainRule_le (f : Func) : (f.chainRule u du).nodes ≤ du.nodes + u.nodes + 4 := by
  cases f <;> simp only [Func.chainRule, nodes_mul, nodes_div, nodes_call, nodes_one,
    nodes_minusOne] <;> omega

end Sizes

variable (x : Variable)

/-- No rule adds more nodes than the power rule. -/
theorem nodes_derivative_binary_le (op : BinOp) (l r : Expr) :
    ((binary op l r).derivative x).nodes ≤
      (l.derivative x).nodes + (r.derivative x).nodes + 4 * l.nodes + 3 * r.nodes + 9 := by
  rw [derivative_binary]
  cases Dependence.of x l r with
  | neither => simp
  | left =>
    have := nodes_leftRule_le l r (l.derivative x) op
    simp only
    omega
  | right =>
    have := nodes_rightRule_le l r (r.derivative x) op
    simp only
    omega
  | both => exact nodes_fullRule_le l r (l.derivative x) (r.derivative x) op

theorem nodes_derivative_call_le (f : Func) (u : Expr) :
    ((call f u).derivative x).nodes ≤ (u.derivative x).nodes + u.nodes + 4 := by
  rw [derivative_call]
  split
  · exact nodes_chainRule_le u (u.derivative x) f
  · simp

/-- The derivative of a leaf is a leaf. -/
theorem nodes_derivative_of_nodes_eq_one {e : Expr} (leaf : e.nodes = 1) :
    (e.derivative x).nodes = 1 := by
  cases e with
  | const c => rfl
  | var v =>
    rw [derivative_var]
    split <;> rfl
  | binary op l r =>
    have := l.nodes_pos
    simp only [nodes] at leaf
    omega
  | call f u =>
    have := u.nodes_pos
    simp only [nodes] at leaf
    omega

/-- The arithmetic of the power rule, for operands of `a` and `b` nodes with derivatives of `a'` and
`b'` nodes. -/
theorem power_growth {a b a' b' : Nat} (ha : 0 < a) (hb : 0 < b) (ha' : a' ≤ 2 * a ^ 2)
    (hb' : b' ≤ 2 * b ^ 2) (leafA : a = 1 → a' = 1) (leafB : b = 1 → b' = 1) :
    a' + b' + 4 * a + 3 * b + 9 ≤ 2 * (a + b + 1) ^ 2 := by
  have square : (a + b + 1) ^ 2 = a ^ 2 + b ^ 2 + 2 * (a * b) + 2 * a + 2 * b + 1 := by ring
  rw [square]
  by_cases leaves : a = 1 ∧ b = 1
  -- The two sides are equal here, at `18`.
  · obtain ⟨rfl, rfl⟩ := leaves
    have := leafA rfl
    have := leafB rfl
    omega
  · have product : 2 ≤ a * b := by
      rcases Nat.lt_or_ge 1 a with larger | single
      · exact Nat.mul_le_mul larger hb
      · have larger : 2 ≤ b := by omega
        exact Nat.mul_le_mul ha larger
    omega

/-- A derivative has at most twice the square of the nodes of the expression. -/
theorem nodes_derivative_le (e : Expr) : (e.derivative x).nodes ≤ 2 * e.nodes ^ 2 := by
  induction e with
  | const c | var v =>
    rw [nodes_derivative_of_nodes_eq_one x rfl]
    show 1 ≤ 2 * 1 ^ 2
    decide
  | binary op l r ihl ihr =>
    calc
      _ ≤ (l.derivative x).nodes + (r.derivative x).nodes + 4 * l.nodes + 3 * r.nodes + 9 :=
        nodes_derivative_binary_le x op l r
      _ ≤ 2 * (l.nodes + r.nodes + 1) ^ 2 :=
        power_growth l.nodes_pos r.nodes_pos ihl ihr (nodes_derivative_of_nodes_eq_one x)
          (nodes_derivative_of_nodes_eq_one x)
  | call f u ih =>
    have := u.nodes_pos
    calc
      _ ≤ (u.derivative x).nodes + u.nodes + 4 := nodes_derivative_call_le x f u
      _ ≤ 2 * u.nodes ^ 2 + 4 * u.nodes + 2 := by omega
      _ = 2 * (u.nodes + 1) ^ 2 := by ring

/-- **Derivatives grow at most quadratically.** The derivative of an expression has at most twice
the square of its complexity, and `x ^ x`, of complexity `3`, has a derivative of complexity
`18`. -/
theorem complexity_derivative_le_and_attained :
    (∀ (x : Variable) (e : Expr), (e.derivative x).complexity ≤ 2 * e.complexity ^ 2) ∧
      ∀ x : Variable, (var x ^ var x).complexity = 3 ∧
        ((var x ^ var x).derivative x).complexity = 18 := by
  simp only [complexity_eq_nodes]
  refine ⟨nodes_derivative_le, fun x => ⟨rfl, ?_⟩⟩
  have itself : x.sameName x = true := BEq.rfl
  have depends : Dependence.of x (var x) (var x) = .both := by
    simp [Dependence.of, dependsOn, itself]
  rw [show var x ^ var x = binary .pow (var x) (var x) from rfl, derivative_binary, depends,
    derivative_var, if_pos itself]
  rfl

end Expr

end Calculus

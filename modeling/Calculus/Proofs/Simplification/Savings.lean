import Calculus.Proofs.Simplification.History
import Calculus.Proofs.Simplification.Irreducible
import Calculus.Proofs.Traversal

/-!
# What a step saves

Every step of a simplification pays for itself: the expression loses two nodes, and its text four
bytes, at least. So the number of steps is bounded by the size of what is given, and a pass that
reports a step has changed the expression.

A `Measure` is a size that adds up over a tree. A rewrite changes it by what it changes of the
subexpression that is rewritten (`size_replaceAt`). If a measure `Saves k` on every node that gives
way to an operand or to the reserved zero, a history saves `k` for each of its rewrites, wherever
they are made (`Saves.rewrites`). Nodes and bytes are counted by two such measures.
-/

namespace Calculus

open Calculus.Expr

/-- A size that adds up over a tree: a node has the size of its operands, and what its operator or
function adds. -/
structure Measure where
  size : Expr → Nat
  ofOp : BinOp → Nat
  ofFunc : Func → Nat
  size_binary (op : BinOp) (l r : Expr) : size (.binary op l r) = size l + size r + ofOp op
  size_call (f : Func) (a : Expr) : size (.call f a) = size a + ofFunc f

theorem Expr.length_call (f : Func) (a : Expr) :
    (call f a).length = a.length + (f.name.utf8ByteSize + 2) := by
  simp only [length]
  omega

namespace Measure

/-- The number of nodes. -/
def nodes : Measure where
  size := Expr.nodes
  ofOp _ := 1
  ofFunc _ := 1
  size_binary _ _ _ := rfl
  size_call _ _ := rfl

/-- The number of bytes of the text. -/
def bytes : Measure where
  size := Expr.length
  ofOp op := op.symbol.utf8ByteSize + 4
  ofFunc f := f.name.utf8ByteSize + 2
  size_binary _ _ _ := rfl
  size_call := length_call

variable {m : Measure} {k : Nat} {e e' : Expr}

/-- What is gained or lost at a position is gained or lost by the whole. -/
theorem size_replaceAt (m : Measure) {t : Expr} {p : Position} (h : e.subexpr? p = some t)
    (u : Expr) : m.size (e.replaceAt p u) + m.size t = m.size e + m.size u := by
  fun_induction subexpr? e p with
  | case1 e =>
    cases h
    rw [replaceAt_nil, Nat.add_comm]
  | case2 op l r p ih =>
    have inner := ih h
    simp only [replaceAt, m.size_binary]
    omega
  | case3 op l r p ih =>
    have inner := ih h
    simp only [replaceAt, m.size_binary]
    omega
  | case4 f a p ih =>
    have inner := ih h
    simp only [replaceAt, m.size_call]
    omega
  | case5 => cases h

/-- A node is larger by `k` than all that it can be reduced to. -/
structure Saves (m : Measure) (k : Nat) : Prop where
  left (op : BinOp) (l r : Expr) : m.size l + k ≤ m.size (.binary op l r)
  right (op : BinOp) (l r : Expr) : m.size r + k ≤ m.size (.binary op l r)
  zero (op : BinOp) (l r : Expr) : m.size .zero + k ≤ m.size (.binary op l r)

theorem Saves.reduces (hm : m.Saves k) {rule : Rule} (h : Reduces rule e e') :
    m.size e' + k ≤ m.size e := by
  cases e with
  | const c => cases h
  | var v => cases h
  | call f a => cases h
  | binary op l r =>
    rcases h.result with rfl | rfl | rfl
    · exact hm.left op _ r
    · exact hm.right op l _
    · exact hm.zero op l r

theorem Saves.rewritesAt (hm : m.Saves k) {p : Position} {reduction : Reduction}
    (h : e.RewritesAt p reduction e') : m.size e' + k ≤ m.size e := by
  have whole := m.size_replaceAt h.before reduction.after
  have part := hm.reduces (Rule.first?_all_eq_some_iff.1 h.fires)
  rw [h.after]
  omega

/-- A history saves `k` for each of its rewrites. -/
theorem Saves.rewrites (hm : m.Saves k) {made : List Reduction} (h : e.Rewrites made e') :
    m.size e' + k * made.length ≤ m.size e := by
  induction h with
  | nil e => simp
  | cons first rest ih =>
    have saved := hm.rewritesAt first
    rw [List.length_cons, Nat.mul_succ]
    omega

/-- The other operand goes with the node, and a zero takes the place of at least three nodes. -/
theorem saves_nodes : nodes.Saves 2 where
  left op l r := by
    have := r.nodes_pos
    simp only [nodes, Expr.nodes]
    omega
  right op l r := by
    have := l.nodes_pos
    simp only [nodes, Expr.nodes]
    omega
  zero op l r := by
    have := l.nodes_pos
    have := r.nodes_pos
    simp only [nodes, Expr.nodes, Expr.zero]
    omega

/-- The parentheses, the blanks and the operator are five bytes, whatever the operands are called;
a zero needs one of them. -/
theorem saves_bytes : bytes.Saves 4 where
  left op l r := by
    simp only [bytes, Expr.length]
    omega
  right op l r := by
    simp only [bytes, Expr.length]
    omega
  zero op l r := by
    have digit : Expr.zero.length = 1 := by decide
    have sign : op.symbol.utf8ByteSize = 1 := by cases op <;> decide
    simp only [bytes, Expr.length, digit, sign]
    omega

end Measure

namespace Expr

/-- Only an empty history leads back to where it began. -/
theorem Rewrites.eq_nil_iff {e e' : Expr} {made : List Reduction} (h : e.Rewrites made e') :
    made = [] ↔ e' = e := by
  constructor
  · rintro rfl
    cases h
    rfl
  · rintro rfl
    have saved := Measure.saves_nodes.rewrites h
    exact List.eq_nil_of_length_eq_zero (by omega)

/-- **Every step pays for itself.** A pass that makes `n` steps removes at least `2 * n` nodes from
the expression and `4 * n` bytes from its text, whatever its leaves are called. It makes no step
exactly if it leaves the expression as it is. -/
theorem simplifySteps_saves_nodes_and_bytes (e s : Expr) (steps : Array Rule)
    (h : e.simplifySteps = .ok (s, steps)) :
    s.complexity + 2 * steps.size ≤ e.complexity ∧ s.length + 4 * steps.size ≤ e.length ∧
      (steps = #[] ↔ s = e) := by
  have simplified := simplify_of_simplifySteps h
  have history := rewrites_of_simplify simplified
  obtain rfl : (e.reductions.map (·.rule)).toArray = steps := by
    have listed := simplifySteps_of_simplify simplified
    exact congrArg Prod.snd (Except.ok.inj (listed.symm.trans h))
  have size : (e.reductions.map (·.rule)).toArray.size = e.reductions.length := by simp
  rw [complexity_eq_nodes, complexity_eq_nodes, size]
  refine ⟨Measure.saves_nodes.rewrites history, Measure.saves_bytes.rewrites history, ?_⟩
  rw [← history.eq_nil_iff]
  simp

/-- Nothing is saved beyond that by `( * )`, whose factors are zeros without a name: three nodes and
five bytes become one of each in one step. -/
theorem simplifySteps_saves_nodes_and_bytes_of_nameless_zeros :
    let e := const ⟨"", 0.0⟩ * const ⟨"", -0.0⟩
    e.simplifySteps = .ok (zero, #[.mulZero]) ∧ e.nodes = 3 ∧ e.length = 5 ∧
      zero.complexity + 2 * #[Rule.mulZero].size ≤ e.complexity ∧
      zero.length + 4 * #[Rule.mulZero].size ≤ e.length ∧ (#[Rule.mulZero] = #[] ↔ zero = e) := by
  intro e
  have steps : e.simplifySteps = .ok (zero, #[.mulZero]) := rfl
  exact ⟨steps, rfl, by decide, simplifySteps_saves_nodes_and_bytes e zero #[.mulZero] steps⟩

end Expr

end Calculus

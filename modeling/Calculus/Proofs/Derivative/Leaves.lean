import Calculus.Proofs.Derivative.Rules
import Calculus.Proofs.Traversal

/-!
# The leaves of a derivative

Differentiation makes no leaves but the reserved `1` and `-1`, apart from the `0` it answers as a
whole for what does not depend on the variable: no rule is given the derivative of an operand that
does not. So a property of leaves that `1` and `-1` have carries over from an expression to its
derivatives of any order, up to the one that is `0` (`everywhere_nthDerivative`).

Being a leaf of the expression one starts from is such a property, so a derivative has the leaves
of the expression and those two. And since every rule but those of sums and differences makes a
node, what depends on the variable has the derivative `1` or a node, never `0`
(`derivative_eq_zero_iff`).
-/

namespace Calculus

/-- A property of leaves, which the leaves that differentiation makes have. -/
structure LeafProperty (P : Expr → Prop) : Prop where
  binary (op : BinOp) (l r : Expr) : P (.binary op l r)
  call (f : Func) (a : Expr) : P (.call f a)
  one : P .one
  minusOne : P .minusOne

namespace LeafProperty

variable {P : Expr → Prop} {l r u : Expr}

theorem everywhere_one (hP : LeafProperty P) : Expr.one.Everywhere P :=
  Expr.everywhere_const.2 hP.one

theorem everywhere_minusOne (hP : LeafProperty P) : Expr.minusOne.Everywhere P :=
  Expr.everywhere_const.2 hP.minusOne

theorem node (hP : LeafProperty P) {op : BinOp} (hl : l.Everywhere P) (hr : r.Everywhere P) :
    (Expr.binary op l r).Everywhere P :=
  Expr.everywhere_binary.2 ⟨hP.binary op l r, hl, hr⟩

theorem application (hP : LeafProperty P) {f : Func} (hu : u.Everywhere P) :
    (Expr.call f u).Everywhere P :=
  Expr.everywhere_call.2 ⟨hP.call f u, hu⟩

/-- A property of leaves carries over to what the rules of differentiation make. -/
theorem congruence (hP : LeafProperty P) : Congruence fun e e' => e = e' ∧ e.Everywhere P where
  binary op := by
    rintro l _ r _ ⟨rfl, hl⟩ ⟨rfl, hr⟩
    exact ⟨rfl, hP.node hl hr⟩
  call f := by
    rintro u _ ⟨rfl, hu⟩
    exact ⟨rfl, hP.application hu⟩
  one := ⟨rfl, hP.everywhere_one⟩
  minusOne := ⟨rfl, hP.everywhere_minusOne⟩

end LeafProperty

namespace Expr

variable {P : Expr → Prop} {e : Expr} {x : Variable}

/-- Induction along the rules of differentiation, for what depends on the variable: only operands
that depend on it are differentiated. -/
theorem derivative_induction {motive : Expr → Expr → Prop}
    (own : ∀ v : Variable, v.sameName x = true → motive (.var v) one)
    (left : ∀ op l r, motive l (l.derivative x) →
      motive (.binary op l r) (op.leftRule l r (l.derivative x)))
    (right : ∀ op l r, motive r (r.derivative x) →
      motive (.binary op l r) (op.rightRule l r (r.derivative x)))
    (full : ∀ op l r, motive l (l.derivative x) → motive r (r.derivative x) →
      motive (.binary op l r) (op.fullRule l r (l.derivative x) (r.derivative x)))
    (chain : ∀ f a, motive a (a.derivative x) →
      motive (.call f a) (f.chainRule a (a.derivative x)))
    (depends : e.dependsOn x = true) : motive e (e.derivative x) := by
  induction e with
  | const c => cases depends
  | var v =>
    have same : v.sameName x = true := depends
    rw [derivative_var, if_pos same]
    exact own v same
  | binary op l r ihl ihr =>
    have either : l.dependsOn x = true ∨ r.dependsOn x = true := Bool.or_eq_true_iff.1 depends
    rw [derivative_binary, Dependence.of]
    cases dl : l.dependsOn x <;> cases dr : r.dependsOn x
    · simp [dl, dr] at either
    · exact right op l r (ihr dr)
    · exact left op l r (ihl dl)
    · exact full op l r (ihl dl) (ihr dr)
  | call f a ih =>
    have inside : a.dependsOn x = true := depends
    rw [derivative_call, if_pos inside]
    exact chain f a (ih inside)

/-- A property of leaves carries over to the derivative of what depends on the variable. -/
theorem everywhere_derivative (hP : LeafProperty P) (h : e.Everywhere P)
    (depends : e.dependsOn x = true) : (e.derivative x).Everywhere P := by
  refine derivative_induction (motive := fun e d => e.Everywhere P → d.Everywhere P)
    ?_ ?_ ?_ ?_ ?_ depends h
  · intro v same h
    exact hP.everywhere_one
  · intro op l r ih h
    obtain ⟨-, hl, hr⟩ := everywhere_binary.1 h
    exact (hP.congruence.leftRule op ⟨rfl, hl⟩ ⟨rfl, hr⟩ ⟨rfl, ih hl⟩).2
  · intro op l r ih h
    obtain ⟨-, hl, hr⟩ := everywhere_binary.1 h
    exact (hP.congruence.rightRule op ⟨rfl, hl⟩ ⟨rfl, hr⟩ ⟨rfl, ih hr⟩).2
  · intro op l r ihl ihr h
    obtain ⟨-, hl, hr⟩ := everywhere_binary.1 h
    exact (hP.congruence.fullRule op ⟨rfl, hl⟩ ⟨rfl, hr⟩ ⟨rfl, ihl hl⟩ ⟨rfl, ihr hr⟩).2
  · intro f a ih h
    obtain ⟨-, ha⟩ := everywhere_call.1 h
    exact (hP.congruence.chainRule f ⟨rfl, ha⟩ ⟨rfl, ih ha⟩).2

/-- The reserved zero is its own derivative, of any order. -/
theorem zero_nthDerivative (x : Variable) (n : Nat) : zero.nthDerivative x n = zero := by
  induction n with
  | zero => rfl
  | succ n ih => exact ih

/-- A property of leaves carries over to derivatives, until one is the reserved zero. -/
theorem everywhere_nthDerivative (hP : LeafProperty P) (h : e.Everywhere P) (x : Variable)
    (n : Nat) : e.nthDerivative x n = zero ∨ (e.nthDerivative x n).Everywhere P := by
  induction n generalizing e with
  | zero => exact .inr h
  | succ n ih =>
    rw [nthDerivative_succ]
    cases depends : e.dependsOn x with
    | true => exact ih (everywhere_derivative hP h depends)
    | false =>
      rw [derivative_of_not_dependsOn depends]
      exact .inl (zero_nthDerivative x n)

section Pruning

/-- The reserved one, or a node. -/
def OneOrNode (e : Expr) : Prop :=
  e = one ∨ e.isLeaf = false

theorem OneOrNode.isZero (h : e.OneOrNode) : e.isZero = false := by
  rcases h with rfl | node
  · exact isZero_one
  · cases e with
    | const c | var v => cases node
    | binary op l r => rfl
    | call f a => rfl

/-- What depends on the variable is not differentiated to a leaf other than one: a rule keeps the
derivative it is given, or makes a node. -/
theorem derivative_oneOrNode (depends : e.dependsOn x = true) : (e.derivative x).OneOrNode := by
  refine derivative_induction (motive := fun _ d => d.OneOrNode) ?_ ?_ ?_ ?_ ?_ depends
  · intro v same
    exact .inl rfl
  · intro op l r ih
    cases op with
    | add | sub => exact ih
    | mul | div | pow => exact .inr rfl
  · intro op l r ih
    cases op with
    | add => exact ih
    | sub | mul | div | pow => exact .inr rfl
  · intro op l r _ _
    cases op <;> exact .inr rfl
  · intro f a _
    cases f <;> exact .inr rfl

/-- The derivative is the reserved zero exactly for what does not depend on the variable. -/
theorem derivative_eq_zero_iff : e.derivative x = zero ↔ e.dependsOn x = false := by
  refine ⟨fun h => ?_, derivative_of_not_dependsOn⟩
  cases depends : e.dependsOn x with
  | false => rfl
  | true =>
    have nonzero := (derivative_oneOrNode depends).isZero
    rw [h, isZero_zero] at nonzero
    cases nonzero

end Pruning

section Origin

/-- Being a leaf of a given expression, or one of the two that differentiation makes. -/
theorem leafProperty_origin (e : Expr) :
    LeafProperty fun t => t.isLeaf → t ∈ e.leaves ∨ t = one ∨ t = minusOne where
  binary _ _ _ node := nomatch node
  call _ _ node := nomatch node
  one _ := .inr (.inl rfl)
  minusOne _ := .inr (.inr rfl)

/-- A derivative is the reserved zero, or all its leaves are known. -/
theorem leaves_nthDerivative (e : Expr) (x : Variable) (n : Nat) :
    e.nthDerivative x n = zero ∨
      ∀ t ∈ (e.nthDerivative x n).leaves, t ∈ e.leaves ∨ t = one ∨ t = minusOne := by
  have own : e.Everywhere fun t => t.isLeaf → t ∈ e.leaves ∨ t = one ∨ t = minusOne :=
    everywhere_iff_forall_mem.2 fun t ht leaf => .inl (mem_leaves.2 ⟨ht, leaf⟩)
  refine (everywhere_nthDerivative (leafProperty_origin e) own x n).imp_right fun known t ht => ?_
  obtain ⟨node, leaf⟩ := mem_leaves.1 ht
  exact everywhere_iff_forall_mem.1 known t node leaf

/-- A variable in a derivative is one of the expression, with its cell. -/
theorem var_mem_leaves_of_nthDerivative {n : Nat} {v : Variable}
    (h : var v ∈ (e.nthDerivative x n).leaves) : var v ∈ e.leaves := by
  rcases leaves_nthDerivative e x n with hzero | known
  · rw [hzero] at h
    cases (mem_leaves.1 h).1 with
    | tail _ none => cases none
  · rcases known _ h with own | isOne | isMinusOne
    · exact own
    · cases isOne
    · cases isMinusOne

/-- **Pruning is complete, and derivatives invent no leaves.** The derivative of what does not
depend on `x` is the reserved zero; that of what does is the reserved one or a node. A
derivative of any order is the reserved zero, or has no leaves but those of the expression and
the reserved one and minus one, so that a zero in it stood in the expression already. The
variables of a derivative are variables of the expression, cells included, whichever `x` is
differentiated by. -/
theorem derivative_pruned_with_inherited_leaves (e : Expr) (x : Variable) :
    (e.dependsOn x = false → e.derivative x = zero) ∧
      (e.dependsOn x = true →
        (e.derivative x = one ∨ (e.derivative x).isLeaf = false) ∧
          (e.derivative x).isZero = false) ∧
      ∀ n,
        (e.nthDerivative x n = zero ∨
          (∀ t ∈ (e.nthDerivative x n).leaves, t ∈ e.leaves ∨ t = one ∨ t = minusOne) ∧
            ∀ t ∈ (e.nthDerivative x n).leaves, t.isZero = true → t ∈ e.leaves) ∧
        (∀ v, var v ∈ (e.nthDerivative x n).leaves → var v ∈ e.leaves) ∧
        ∀ name ∈ (e.nthDerivative x n).variableNames, name ∈ e.variableNames := by
  refine ⟨derivative_of_not_dependsOn, fun depends => ?_, fun n => ⟨?_, ?_, ?_⟩⟩
  · exact ⟨derivative_oneOrNode depends, (derivative_oneOrNode depends).isZero⟩
  · refine (leaves_nthDerivative e x n).imp_right fun known => ⟨known, fun t ht zero => ?_⟩
    rcases known t ht with own | rfl | rfl
    · exact own
    · simp at zero
    · simp at zero
  · intro v
    exact var_mem_leaves_of_nthDerivative
  · intro name h
    obtain ⟨v, hv, rfl⟩ := mem_variableNames.1 h
    exact mem_variableNames.2 ⟨v, var_mem_leaves_of_nthDerivative hv, rfl⟩

end Origin

end Expr

end Calculus

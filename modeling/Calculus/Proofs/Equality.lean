import Mathlib
import Calculus.Proofs.Derivative.Rules
import Calculus.Proofs.Rendering
import Calculus.Proofs.Simplification.Lockstep
import Calculus.Proofs.Traversal

/-!
# Equality

Expressions are equal when they are aligned and their leaves are the same: constants by name and by
value, as doubles compare, and variables by name. Since no double that is not a number equals itself,
equality is no equivalence on all expressions, but it is symmetric and transitive, and an expression
equals itself if no constant in it fails to be a number.

Equal expressions may have different cells under one name, and zeros of different signs. The
library does not tell them apart, evaluation aside: they are rendered, measured and searched alike,
their derivatives are equal, and they are simplified by the same steps to equal results or to the
same error.
-/

namespace Calculus

theorem Constant.beq_iff {c d : Constant} :
    (c == d) = true ↔ c.name = d.name ∧ (c.value == d.value) = true := by
  show (c.name == d.name && c.value == d.value) = true ↔ _
  rw [Bool.and_eq_true, beq_iff_eq]

instance : PartialEquivBEq Constant where
  symm h := by
    obtain ⟨names, values⟩ := Constant.beq_iff.1 h
    exact Constant.beq_iff.2 ⟨names.symm, BEq.symm values⟩
  trans h h' := by
    obtain ⟨names, values⟩ := Constant.beq_iff.1 h
    obtain ⟨names', values'⟩ := Constant.beq_iff.1 h'
    exact Constant.beq_iff.2 ⟨names.trans names', BEq.trans values values'⟩

namespace Expr

/-- Equal constants, or variables of the same name. -/
inductive SameLeaf : Expr → Expr → Prop where
  | const {c d : Constant} (h : (c == d) = true) : SameLeaf (.const c) (.const d)
  | var {v w : Variable} (h : v.name = w.name) : SameLeaf (.var v) (.var w)

theorem SameLeaf.symm {x y : Expr} (h : x.SameLeaf y) : y.SameLeaf x := by
  cases h with
  | const h => exact .const (BEq.symm h)
  | var h => exact .var h.symm

theorem SameLeaf.trans {x y z : Expr} (h : x.SameLeaf y) (h' : y.SameLeaf z) : x.SameLeaf z := by
  cases h with
  | const h =>
    cases h' with
    | const h' => exact .const (BEq.trans h h')
  | var h =>
    cases h' with
    | var h' => exact .var (h.trans h')

/-- Equal expressions are aligned, with the same leaves. -/
theorem aligned_of_beq {a b : Expr} (h : (a == b) = true) : a.Aligned SameLeaf b := by
  induction a generalizing b with
  | const c =>
    cases b with
    | const d => exact .leaf rfl rfl (.const h)
    | var | binary | call => cases h
  | var v =>
    cases b with
    | var w => exact .leaf rfl rfl (.var (beq_iff_eq.1 h))
    | const | binary | call => cases h
  | binary op l r ihl ihr =>
    cases b with
    | binary op' l' r' =>
      have parts : (op == op' && l == l' && r == r') = true := h
      simp only [Bool.and_eq_true, beq_iff_eq] at parts
      obtain ⟨⟨rfl, hl⟩, hr⟩ := parts
      exact .binary op (ihl hl) (ihr hr)
    | const | var | call => cases h
  | call f u ih =>
    cases b with
    | call f' u' =>
      have parts : (f == f' && u == u') = true := h
      simp only [Bool.and_eq_true, beq_iff_eq] at parts
      obtain ⟨rfl, hu⟩ := parts
      exact .call f (ih hu)
    | const | var | binary => cases h

theorem beq_of_aligned {a b : Expr} (h : a.Aligned SameLeaf b) : (a == b) = true := by
  induction h with
  | leaf _ _ h =>
    cases h with
    | const h => exact h
    | @var v w h =>
      show (v.name == w.name) = true
      exact beq_iff_eq.2 h
  | @binary op l l' r r' _ _ ihl ihr =>
    show (op == op && l == l' && r == r') = true
    rw [ihl, ihr, BEq.rfl]
    rfl
  | @call f u u' _ ih =>
    show (f == f && u == u') = true
    rw [ih, BEq.rfl]
    rfl

instance : PartialEquivBEq Expr where
  symm h := beq_of_aligned ((aligned_of_beq h).flip.imp fun _ _ => SameLeaf.symm)
  trans h h' := beq_of_aligned ((aligned_of_beq h).trans @SameLeaf.trans (aligned_of_beq h'))

/-- An expression equals itself when all its constants are numbers. -/
theorem beq_self_iff {e : Expr} :
    (e == e) = true ↔ e.Everywhere fun t => ∀ c, t = .const c → c.value.isNaN = false := by
  induction e with
  | const c =>
    show (c == c) = true ↔ _
    simp [Constant.beq_iff]
  | var v =>
    show (v.name == v.name) = true ↔ _
    simp
  | binary op l r ihl ihr =>
    show (op == op && l == l && r == r) = true ↔ _
    simp [ihl, ihr]
  | call f u ih =>
    show (f == f && u == u) = true ↔ _
    simp [ih]

section Agreement

variable {a b : Expr}

/-- Equal expressions have the same form. -/
theorem sameForm_of_aligned (h : a.Aligned SameLeaf b) : a.SameForm b := by
  induction h with
  | leaf _ _ h =>
    cases h with
    | @const c d h =>
      have names : c.name = d.name := (Constant.beq_iff.1 h).1
      exact .leaf rfl (congrArg some names.symm)
    | var h => exact .leaf rfl (congrArg some h.symm)
  | binary op _ _ ihl ihr => exact .binary op ihl ihr
  | call f _ ih => exact .call f ih

theorem isClosed_of_aligned (h : a.Aligned SameLeaf b) : a.isClosed = b.isClosed := by
  induction h with
  | leaf _ _ h => cases h <;> rfl
  | binary op _ _ ihl ihr => simp only [isClosed, ihl, ihr]
  | call f _ ih => simp only [isClosed, ih]

theorem dependsOn_of_aligned (h : a.Aligned SameLeaf b) (x : Variable) :
    a.dependsOn x = b.dependsOn x := by
  induction h with
  | leaf _ _ h =>
    cases h with
    | const h => rfl
    | var h => simp only [dependsOn, Variable.sameName, h]
  | binary op _ _ ihl ihr => simp only [dependsOn, ihl, ihr]
  | call f _ ih => simp only [dependsOn, ih]

theorem collectName_of_aligned (names : Array String) (h : a.Aligned SameLeaf b) :
    collectName names a = collectName names b := by
  cases h with
  | leaf _ _ h =>
    cases h with
    | const h => rfl
    | var h => simp only [collectName, h]
  | binary op _ _ => rfl
  | call f _ => rfl

/-- Equal expressions are traversed alike. -/
theorem fold_of_aligned (h : a.Aligned SameLeaf b) :
    a.complexity = b.complexity ∧ a.variableNames = b.variableNames := by
  rw [complexity_eq_foldl, complexity_eq_foldl, variableNames_eq_foldl, variableNames_eq_foldl]
  constructor
  · exact h.foldl_postOrderList (fun _ _ _ _ => rfl) 0
  · exact h.foldl_postOrderList (fun names _ _ => collectName_of_aligned names) #[]

end Agreement

section Operations

variable {a b : Expr}

theorem leafRelation_sameLeaf : LeafRelation SameLeaf where
  looksLike h := by
    cases h with
    | const h =>
      have values := (Constant.beq_iff.1 h).2
      exact ⟨BEq.congr_left values, BEq.congr_left values⟩
    | var h => exact ⟨rfl, rfl⟩
  zero := .const (by decide)

theorem congruence_sameLeaf : Congruence (Aligned SameLeaf) where
  binary op _ _ _ _ hl hr := .binary op hl hr
  call f _ _ hu := .call f hu
  one := .leaf rfl rfl (.const (by decide))
  minusOne := .leaf rfl rfl (.const (by decide))

/-- Equal expressions have equal derivatives. -/
theorem aligned_derivative (h : a.Aligned SameLeaf b) (x : Variable) :
    (a.derivative x).Aligned SameLeaf (b.derivative x) := by
  have zeros : zero.Aligned SameLeaf zero := .leaf rfl rfl leafRelation_sameLeaf.zero
  induction h with
  | leaf _ _ h =>
    cases h with
    | const h => exact zeros
    | @var v w h =>
      have same : v.sameName x = w.sameName x := by rw [Variable.sameName, Variable.sameName, h]
      rw [derivative_var, derivative_var, same]
      split
      · exact congruence_sameLeaf.one
      · exact zeros
  | @binary op l l' r r' hl hr ihl ihr =>
    have same : Dependence.of x l r = Dependence.of x l' r' := by
      rw [Dependence.of, Dependence.of, dependsOn_of_aligned hl, dependsOn_of_aligned hr]
    rw [derivative_binary, derivative_binary, same]
    cases Dependence.of x l' r' with
    | neither => exact zeros
    | left => exact congruence_sameLeaf.leftRule op hl hr ihl
    | right => exact congruence_sameLeaf.rightRule op hl hr ihr
    | both => exact congruence_sameLeaf.fullRule op hl hr ihl ihr
  | @call f u u' hu ih =>
    rw [derivative_call, derivative_call, dependsOn_of_aligned hu]
    split
    · exact congruence_sameLeaf.chainRule f hu ih
    · exact zeros

theorem aligned_nthDerivative (h : a.Aligned SameLeaf b) (x : Variable) (n : Nat) :
    (a.nthDerivative x n).Aligned SameLeaf (b.nthDerivative x n) := by
  induction n generalizing a b with
  | zero => exact h
  | succ n ih => exact ih (aligned_derivative h x)

/-- A doomed division at a position has the same error in all expressions of the same form. -/
theorem SameForm.doomedError_eq (h : a.SameForm b) (p : Position) :
    a.doomedError p = b.doomedError p := by
  have spans : a.spanAt = b.spanAt := funext h.spanAt_eq
  rw [doomedError, doomedError, located, located, spans]

/-- Equal expressions are simplified by the same steps, to equal expressions or the same error. -/
theorem simplifyInto_of_aligned (h : a.Aligned SameLeaf b) (steps : Array Rule) :
    (a.simplifyInto steps).2 = (b.simplifyInto steps).2 ∧
      ((∃ s t, (a.simplifyInto steps).1 = .ok s ∧ (b.simplifyInto steps).1 = .ok t ∧
        (s == t) = true) ∨
      ∃ err, (a.simplifyInto steps).1 = .error err ∧ (b.simplifyInto steps).1 = .error err) := by
  obtain ⟨rules, ends⟩ := h.lockstep leafRelation_sameLeaf
  refine ⟨by simp only [simplifyInto_array, rules], ?_⟩
  simp only [simplifyInto_fst]
  rcases ends with ⟨s, t, hs, ht, aligned⟩ | ⟨q, da, db⟩
  · exact .inl ⟨s, t, hs, ht, beq_of_aligned aligned⟩
  · refine .inr ⟨b.doomedError q, ?_, simplify_of_firstDoomed? db⟩
    rw [simplify_of_firstDoomed? da, (sameForm_of_aligned h).doomedError_eq]

end Operations

/-- **Equality.** Equality of expressions is symmetric and transitive, and an expression equals
itself exactly if all its constants are numbers. Equal expressions have the same text, length,
complexity and variables, and are closed and depend on a variable together. Their derivatives of
any order are equal. Simplification pushes the same steps for both, and gives equal expressions
or the same error. -/
theorem beq_partial_equivalence_and_congruence :
    (∀ a b : Expr, (a == b) = true → (b == a) = true) ∧
    (∀ a b c : Expr, (a == b) = true → (b == c) = true → (a == c) = true) ∧
    (∀ e : Expr, (e == e) = true ↔
      ∀ p c, e.subexpr? p = some (.const c) → c.value.isNaN = false) ∧
    ∀ a b : Expr, (a == b) = true → ∀ x : Variable,
      a.render = b.render ∧ a.length = b.length ∧ a.complexity = b.complexity ∧
      a.variableNames = b.variableNames ∧ a.isClosed = b.isClosed ∧
      a.dependsOn x = b.dependsOn x ∧
      (∀ n, (a.nthDerivative x n == b.nthDerivative x n) = true) ∧
      ∀ steps : Array Rule, (a.simplifyInto steps).2 = (b.simplifyInto steps).2 ∧
        ((∃ s t, (a.simplifyInto steps).1 = .ok s ∧ (b.simplifyInto steps).1 = .ok t ∧
          (s == t) = true) ∨
        ∃ err, (a.simplifyInto steps).1 = .error err ∧ (b.simplifyInto steps).1 = .error err) := by
  refine ⟨fun a b => BEq.symm, fun a b c => BEq.trans, fun e => ?_, fun a b h x => ?_⟩
  · rw [beq_self_iff]
    refine ⟨fun h p c hc => h p _ hc c rfl, ?_⟩
    rintro h p _ ht c rfl
    exact h p c ht
  · have aligned := aligned_of_beq h
    have form := sameForm_of_aligned aligned
    obtain ⟨complexity, names⟩ := fold_of_aligned aligned
    exact ⟨form.render_eq, form.length_eq, complexity, names, isClosed_of_aligned aligned,
      dependsOn_of_aligned aligned x, fun n => beq_of_aligned (aligned_nthDerivative aligned x n),
      simplifyInto_of_aligned aligned⟩

/-- `(1 * (z ^ x))` with zeros of different signs for `z`, and different cells for `x`. -/
theorem beq_partial_equivalence_and_congruence_of_twins :
    let a := one * const ⟨"z", 0.0⟩ ^ var ⟨"x", 0⟩
    let b := one * const ⟨"z", -0.0⟩ ^ var ⟨"x", 1⟩
    let x : Variable := ⟨"x", 2⟩
    let steps : Array Rule := #[]
    (a == b) = true ∧ a.render = "(1 * (z ^ x))" ∧ a.dependsOn x = true ∧
      (a.simplifyInto steps).2 = #[.mulOne] ∧ a.render = b.render ∧ b.dependsOn x = true ∧
      (∀ n, (a.nthDerivative x n == b.nthDerivative x n) = true) ∧
      (a.simplifyInto steps).2 = (b.simplifyInto steps).2 := by
  intro a b x steps
  have equal : (a == b) = true := by decide
  obtain ⟨-, -, -, congruence⟩ := beq_partial_equivalence_and_congruence
  obtain ⟨text, -, -, -, -, depends, derivatives, simplified⟩ := congruence a b equal x
  exact ⟨equal, by decide, by decide, rfl, text, depends.symm, derivatives, (simplified steps).1⟩

end Expr

end Calculus

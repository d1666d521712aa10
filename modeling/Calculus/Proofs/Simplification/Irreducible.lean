import Calculus.Proofs.Position
import Calculus.Proofs.Simplification.Reduction

/-!
# Irreducible forms

An expression is irreducible when no rule applies to any of its subexpressions and none of them
divides by a zero constant. One pass reaches an irreducible form, although a reduction puts an
operand or a zero in the place of a node that its parent has not looked at yet: what comes out of
a reduction is a subexpression of what went in, or the reserved zero, so nothing below it has to
be looked at again. And a pass changes nothing exactly where there is nothing to reduce.
-/

namespace Calculus

universe u

namespace Expr

/-- No rule applies at the top of a tree, and it is not a division by a zero constant. -/
def TopIrreducible (e : Expr) : Prop :=
  Rule.first? Rule.all e = none ∧ ∀ l r, e = .binary .div l r → r.isZero = false

/-- No subexpression can be reduced or divides by a zero constant. -/
def Irreducible (e : Expr) : Prop :=
  e.Everywhere TopIrreducible

@[simp] theorem irreducible_const (c : Constant) : (const c).Irreducible := by
  simp [Irreducible, TopIrreducible]

@[simp] theorem irreducible_var (v : Variable) : (var v).Irreducible := by
  simp [Irreducible, TopIrreducible]

@[simp] theorem irreducible_zero : zero.Irreducible :=
  irreducible_const .zero

theorem irreducible_binary {op : BinOp} {l r : Expr} :
    (binary op l r).Irreducible ↔
      Rule.first? Rule.all (.binary op l r) = none ∧ ¬ (op = .div ∧ r.isZero) ∧
        l.Irreducible ∧ r.Irreducible := by
  have top : (binary op l r).TopIrreducible ↔
      Rule.first? Rule.all (.binary op l r) = none ∧ ¬ (op = .div ∧ r.isZero) := by
    refine and_congr_right fun _ => ⟨?_, ?_⟩
    · rintro h ⟨rfl, hr⟩
      exact absurd (h l r rfl) (by simp [hr])
    · rintro h l' r' he
      cases he
      exact Bool.eq_false_iff.2 fun hr => h ⟨rfl, hr⟩
  simp only [Irreducible, everywhere_binary, top, and_assoc]

theorem irreducible_call {f : Func} {a : Expr} :
    (call f a).Irreducible ↔ a.Irreducible := by
  simp [Irreducible, TopIrreducible]

/-- A reduction keeps irreducible operands irreducible. -/
theorem irreducible_of_reduces {rule : Rule} {op : BinOp} {l r e : Expr}
    (h : Reduces rule (.binary op l r) e) (hl : l.Irreducible) (hr : r.Irreducible) :
    e.Irreducible := by
  rcases h.result with rfl | rfl | rfl
  · exact hl
  · exact hr
  · exact irreducible_zero

/-- What an expression simplifies to is irreducible. -/
theorem irreducible_of_simplify {e s : Expr} (h : e.simplify = .ok s) : s.Irreducible := by
  induction e generalizing s with
  | const c => cases h; exact irreducible_const c
  | var v => cases h; exact irreducible_var v
  | binary op l r ihl ihr =>
    obtain ⟨l', r', hl, hr, hz, ⟨rule, h⟩ | ⟨hf, rfl⟩⟩ := simplify_binary_eq_ok_iff.1 h
    · exact irreducible_of_reduces h (ihl hl) (ihr hr)
    · exact irreducible_binary.2 ⟨hf, hz, ihl hl, ihr hr⟩
  | call f a ih =>
    obtain ⟨a', ha, rfl⟩ := simplify_call_eq_ok_iff.1 h
    exact irreducible_call.2 (ih ha)

/-- A pass over an irreducible expression makes no reduction and returns it as it is. -/
theorem simplifyPass_of_irreducible {σ : Type u} (note : σ → Reduction → σ) {e : Expr}
    (h : e.Irreducible) (notes : σ) : e.simplifyPass note notes = (.ok e, notes) := by
  induction e generalizing notes with
  | const c => rfl
  | var v => rfl
  | binary op l r ihl ihr =>
    obtain ⟨hf, hz, hl, hr⟩ := irreducible_binary.1 h
    simp only [simplifyPass, ihl hl, ihr hr, if_neg hz, hf]
  | call f a ih => simp only [simplifyPass, ih (irreducible_call.1 h)]

/-- An irreducible expression is simplified to itself in no steps. -/
theorem simplifySteps_of_irreducible {e : Expr} (h : e.Irreducible) :
    e.simplifySteps = .ok (e, #[]) := by
  rw [simplifySteps, simplifyInto, simplifyPass_of_irreducible _ h]

theorem simplify_of_simplifySteps {e s : Expr} {steps : Array Rule}
    (h : e.simplifySteps = .ok (s, steps)) : e.simplify = .ok s := by
  rw [← simplifyInto_fst e (#[] : Array Rule)]
  unfold simplifySteps at h
  split at h
  · rename_i e' steps' hrun
    cases h
    rw [hrun]
  · cases h

/-- **Irreducible forms.** Simplification yields irreducible expressions, leaves exactly these as
they are, without a step, and so is idempotent. -/
theorem simplify_irreducible_forms (e : Expr) :
    (∀ s, e.simplify = .ok s → s.Irreducible) ∧
      (e.simplifySteps = .ok (e, #[]) ↔ e.Irreducible) ∧
      ∀ s, e.simplify = .ok s → s.simplifySteps = .ok (s, #[]) := by
  refine ⟨fun s => irreducible_of_simplify, ⟨fun h => ?_, simplifySteps_of_irreducible⟩,
    fun s h => simplifySteps_of_irreducible (irreducible_of_simplify h)⟩
  exact irreducible_of_simplify (simplify_of_simplifySteps h)

end Expr

end Calculus

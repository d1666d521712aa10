import Calculus.Proofs.Evaluation.Nodes

/-!
# Outcomes

The outcome of an evaluation is the value, or the cause of the failure without its place in the
text. An outcome depends on those of the operands only, the order included in which operands are
looked at (`outcome_div`, `outcome_of_ne_div`, `outcome_call`). So expressions of the same outcome
can stand for each other in any node, whatever their texts are. A factor or a denominator that
changes no number changes no outcome either.
-/

namespace Calculus

universe u

namespace Expr

variable {α : Type u} {A : Arithmetic α} {ρ : Variable → α}

/-- The value of an expression, or why it has none. -/
def outcome (A : Arithmetic α) (ρ : Variable → α) (e : Expr) : Except (Cause α) α :=
  (e.evalIn A ρ).mapError Error.cause

theorem outcome_of_evalIn {e : Expr} {v : α} (h : e.evalIn A ρ = .ok v) :
    e.outcome A ρ = .ok v := by
  rw [outcome, h]
  rfl

theorem outcome_of_error {e : Expr} {err : Error α} (h : e.evalIn A ρ = .error err) :
    e.outcome A ρ = .error err.cause := by
  rw [outcome, h]
  rfl

section Nodes

theorem outcome_div (l r : Expr) :
    (binary .div l r).outcome A ρ =
      match r.outcome A ρ with
      | .error cause => .error cause
      | .ok b =>
        if A.isZero b then .error .divisionByZero
        else
          match l.outcome A ρ with
          | .error cause => .error cause
          | .ok a => .ok (A.div a b) := by
  have node := evalIn_div (A := A) (ρ := ρ) l r
  cases hr : r.evalIn A ρ with
  | error err =>
    rw [hr] at node
    rw [outcome_of_error node, outcome_of_error hr, Error.cause_shift]
  | ok b =>
    rw [outcome_of_evalIn hr]
    by_cases hb : A.isZero b = true
    · simp only [hr, if_pos hb] at node ⊢
      exact outcome_of_error node
    · simp only [hr, if_neg hb] at node ⊢
      cases hl : l.evalIn A ρ with
      | error err =>
        rw [hl] at node
        rw [outcome_of_error node, outcome_of_error hl, Error.cause_shift]
      | ok a =>
        rw [hl] at node
        rw [outcome_of_evalIn node, outcome_of_evalIn hl]

theorem outcome_of_ne_div {op : BinOp} (hop : op ≠ .div) (l r : Expr) :
    (binary op l r).outcome A ρ =
      match l.outcome A ρ with
      | .error cause => .error cause
      | .ok a =>
        match r.outcome A ρ with
        | .error cause => .error cause
        | .ok b =>
          if op = .pow ∧ A.isZero a ∧ A.isZero b then .error .undefinedResult
          else .ok (op.apply A a b) := by
  have node := evalIn_of_ne_div (A := A) (ρ := ρ) hop l r
  cases hl : l.evalIn A ρ with
  | error err =>
    rw [hl] at node
    rw [outcome_of_error node, outcome_of_error hl, Error.cause_shift]
  | ok a =>
    rw [outcome_of_evalIn hl]
    cases hr : r.evalIn A ρ with
    | error err =>
      simp only [hl, hr] at node
      rw [outcome_of_error node, outcome_of_error hr, Error.cause_shift]
    | ok b =>
      rw [outcome_of_evalIn hr]
      by_cases h : op = .pow ∧ A.isZero a ∧ A.isZero b
      · simp only [hl, hr, if_pos h] at node ⊢
        exact outcome_of_error node
      · simp only [hl, hr, if_neg h] at node ⊢
        exact outcome_of_evalIn node

theorem outcome_call (f : Func) (a : Expr) :
    (call f a).outcome A ρ =
      match a.outcome A ρ with
      | .error cause => .error cause
      | .ok v =>
        if f = .ln ∧ A.isNonpos v then .error (.invalidDomain v) else .ok (f.apply A v) := by
  have node := evalIn_call (A := A) (ρ := ρ) f a
  cases ha : a.evalIn A ρ with
  | error err =>
    rw [ha] at node
    rw [outcome_of_error node, outcome_of_error ha, Error.cause_shift]
  | ok v =>
    rw [outcome_of_evalIn ha]
    by_cases h : f = .ln ∧ A.isNonpos v
    · simp only [ha, if_pos h] at node ⊢
      exact outcome_of_error node
    · simp only [ha, if_neg h] at node ⊢
      exact outcome_of_evalIn node

end Nodes

/-- Operands of the same outcome can stand for each other. -/
theorem outcome_binary_congr {l l' r r' : Expr} (op : BinOp)
    (hl : l.outcome A ρ = l'.outcome A ρ) (hr : r.outcome A ρ = r'.outcome A ρ) :
    (binary op l r).outcome A ρ = (binary op l' r').outcome A ρ := by
  by_cases hop : op = .div
  · subst hop
    rw [outcome_div, outcome_div, hl, hr]
  · rw [outcome_of_ne_div hop, outcome_of_ne_div hop, hl, hr]

theorem outcome_call_congr {a a' : Expr} (f : Func) (h : a.outcome A ρ = a'.outcome A ρ) :
    (call f a).outcome A ρ = (call f a').outcome A ρ := by
  rw [outcome_call, outcome_call, h]

section Units

variable {l r : Expr} {unit : α}

/-- A left factor that changes no number. -/
theorem outcome_unit_mul (hl : l.evalIn A ρ = .ok unit) (h : ∀ b, A.mul unit b = b) :
    (binary .mul l r).outcome A ρ = r.outcome A ρ := by
  rw [outcome_of_ne_div (by decide), outcome_of_evalIn hl]
  cases r.outcome A ρ <;> simp [BinOp.apply, h]

/-- A right factor that changes no number. -/
theorem outcome_mul_unit (hr : r.evalIn A ρ = .ok unit) (h : ∀ a, A.mul a unit = a) :
    (binary .mul l r).outcome A ρ = l.outcome A ρ := by
  rw [outcome_of_ne_div (by decide), outcome_of_evalIn hr]
  cases l.outcome A ρ <;> simp [BinOp.apply, h]

/-- A denominator that changes no number. -/
theorem outcome_div_unit (hr : r.evalIn A ρ = .ok unit) (nonzero : A.isZero unit = false)
    (h : ∀ a, A.div a unit = a) : (binary .div l r).outcome A ρ = l.outcome A ρ := by
  rw [outcome_div, outcome_of_evalIn hr]
  cases l.outcome A ρ <;> simp [nonzero, h]

end Units

end Expr

end Calculus

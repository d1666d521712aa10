import Calculus.Evaluation
import Calculus.Proofs.Position

/-!
# Evaluation, node by node

What evaluation does at a node, stated on the outcomes of its operands. `evalIn_div`,
`evalIn_of_ne_div` and `evalIn_call` are the whole story, with the order in which operands are
looked at. Where only values matter, `evalIn_binary_eq_ok_iff` and `evalIn_call_eq_ok_iff` say
when a node has one: both operands have, and the operation is defined on them.
-/

namespace Calculus

universe u

section Operations

variable {α : Type u} (A : Arithmetic α)

/-- The operation of an operator. -/
def BinOp.apply : BinOp → α → α → α
  | .add => A.add
  | .sub => A.sub
  | .mul => A.mul
  | .div => A.div
  | .pow => A.pow

/-- The function that is called. -/
def Func.apply : Func → α → α
  | .ln => A.ln
  | .sin => A.sin
  | .cos => A.cos

/-- Whether an operator is defined on two values. -/
def BinOp.Defined : BinOp → α → α → Prop
  | .add, _, _ => True
  | .sub, _, _ => True
  | .mul, _, _ => True
  | .div, _, b => A.isZero b = false
  | .pow, a, b => ¬ (A.isZero a ∧ A.isZero b)

/-- Whether a function is defined on a value. -/
def Func.Defined : Func → α → Prop
  | .ln, a => A.isNonpos a = false
  | .sin, _ => True
  | .cos, _ => True

end Operations

namespace Expr

variable {α : Type u} {A : Arithmetic α} {ρ : Variable → α}

@[simp] theorem evalIn_const (c : Constant) : (const c).evalIn A ρ = .ok (A.ofFloat c.value) := rfl

@[simp] theorem evalIn_var (v : Variable) : (var v).evalIn A ρ = .ok (ρ v) := rfl

/-- A quotient: the denominator, then whether it is zero, then the numerator. -/
theorem evalIn_div (l r : Expr) :
    (binary .div l r).evalIn A ρ =
      match r.evalIn A ρ with
      | .error err => .error (err.shift (rightStart .div l))
      | .ok b =>
        if A.isZero b then
          .error ⟨[(binary .div l r).span, rightSpan .div l r], .divisionByZero⟩
        else
          match l.evalIn A ρ with
          | .error err => .error (err.shift leftStart)
          | .ok a => .ok (A.div a b) := by
  rw [evalIn]
  cases r.evalIn A ρ with
  | error err => rfl
  | ok b =>
    by_cases hb : A.isZero b = true
    · exact (if_pos hb).trans (if_pos hb).symm
    · refine (if_neg hb).trans (Eq.trans ?_ (if_neg hb).symm)
      cases l.evalIn A ρ <;> rfl

/-- Any other operator: its operands from left to right, then whether it is defined on them. -/
theorem evalIn_of_ne_div {op : BinOp} (hop : op ≠ .div) (l r : Expr) :
    (binary op l r).evalIn A ρ =
      match l.evalIn A ρ with
      | .error err => .error (err.shift leftStart)
      | .ok a =>
        match r.evalIn A ρ with
        | .error err => .error (err.shift (rightStart op l))
        | .ok b =>
          if op = .pow ∧ A.isZero a ∧ A.isZero b then
            .error ⟨[(binary op l r).span, leftSpan l, rightSpan op l r], .undefinedResult⟩
          else
            .ok (op.apply A a b) := by
  cases op with
  | div => exact absurd rfl hop
  | add | sub | mul =>
    rw [evalIn]
    cases l.evalIn A ρ with
    | error err => rfl
    | ok a => cases r.evalIn A ρ <;> rfl
  | pow =>
    rw [evalIn]
    cases l.evalIn A ρ with
    | error err => rfl
    | ok a =>
      cases r.evalIn A ρ with
      | error err => rfl
      | ok b =>
        by_cases h : A.isZero a ∧ A.isZero b
        · exact (if_pos (Bool.and_eq_true_iff.2 h)).trans (if_pos ⟨rfl, h⟩).symm
        · exact (if_neg (mt Bool.and_eq_true_iff.1 h)).trans (if_neg fun hp => h hp.2).symm

/-- A call: its argument, then whether the function is defined on it. -/
theorem evalIn_call (f : Func) (a : Expr) :
    (call f a).evalIn A ρ =
      match a.evalIn A ρ with
      | .error err => .error (err.shift (argumentStart f))
      | .ok v =>
        if f = .ln ∧ A.isNonpos v then
          .error ⟨[(call f a).span, argumentSpan f a], .invalidDomain v⟩
        else
          .ok (f.apply A v) := by
  rw [evalIn]
  cases a.evalIn A ρ with
  | error err => rfl
  | ok v =>
    cases f with
    | sin | cos => rfl
    | ln =>
      by_cases hv : A.isNonpos v = true
      · exact (if_pos hv).trans (if_pos ⟨rfl, hv⟩).symm
      · exact (if_neg hv).trans (if_neg fun hp => hv hp.2).symm

/-- A node has a value when its operands have and the operator is defined on them. -/
theorem evalIn_binary_eq_ok_iff {op : BinOp} {l r : Expr} {v : α} :
    (binary op l r).evalIn A ρ = .ok v ↔
      ∃ a b, l.evalIn A ρ = .ok a ∧ r.evalIn A ρ = .ok b ∧ op.Defined A a b ∧
        op.apply A a b = v := by
  by_cases hop : op = .div
  · subst hop
    rw [evalIn_div]
    cases r.evalIn A ρ with
    | error err => simp
    | ok b =>
      cases hb : A.isZero b with
      | true => simp [BinOp.Defined, hb]
      | false =>
        cases l.evalIn A ρ with
        | error err => simp [hb]
        | ok a => simp [BinOp.Defined, BinOp.apply, hb]
  · rw [evalIn_of_ne_div hop]
    cases l.evalIn A ρ with
    | error err => simp
    | ok a =>
      cases r.evalIn A ρ with
      | error err => simp
      | ok b =>
        cases op with
        | add | sub | mul => simp [BinOp.Defined]
        | div => exact absurd rfl hop
        | pow =>
          by_cases h : A.isZero a ∧ A.isZero b
          · simp [BinOp.Defined, h]
          · simp only [true_and, if_neg h]
            constructor
            · intro hv
              exact ⟨a, b, rfl, rfl, h, by simpa using hv⟩
            · rintro ⟨a', b', ha, hb, -, rfl⟩
              cases ha
              cases hb
              rfl

/-- A call has a value when its argument has and the function is defined on it. -/
theorem evalIn_call_eq_ok_iff {f : Func} {a : Expr} {v : α} :
    (call f a).evalIn A ρ = .ok v ↔
      ∃ w, a.evalIn A ρ = .ok w ∧ f.Defined A w ∧ f.apply A w = v := by
  rw [evalIn_call]
  cases a.evalIn A ρ with
  | error err => simp
  | ok w =>
    cases f with
    | sin | cos => simp [Func.Defined]
    | ln =>
      cases hw : A.isNonpos w with
      | true => simp [Func.Defined, hw]
      | false => simp [Func.Defined, hw]

/-- Where an expression has a value, all its subexpressions have. -/
theorem everywhere_ok_of_evalIn {e : Expr} {v : α} (h : e.evalIn A ρ = .ok v) :
    e.Everywhere fun t => ∃ w, t.evalIn A ρ = .ok w := by
  induction e generalizing v with
  | const c => exact everywhere_const.2 ⟨v, h⟩
  | var x => exact everywhere_var.2 ⟨v, h⟩
  | binary op l r ihl ihr =>
    obtain ⟨a, b, hl, hr, -, -⟩ := evalIn_binary_eq_ok_iff.1 h
    exact everywhere_binary.2 ⟨⟨v, h⟩, ihl hl, ihr hr⟩
  | call f a ih =>
    obtain ⟨w, ha, -, -⟩ := evalIn_call_eq_ok_iff.1 h
    exact everywhere_call.2 ⟨⟨v, h⟩, ih ha⟩

/-- Evaluation reads the variables that occur, and nothing else. -/
theorem evalIn_congr {ρ' : Variable → α} {e : Expr}
    (h : e.Everywhere fun t => ∀ v ∈ t.asVar?, ρ v = ρ' v) : e.evalIn A ρ = e.evalIn A ρ' := by
  induction e with
  | const c => rfl
  | var v => rw [evalIn_var, evalIn_var, h.self v rfl]
  | binary op l r ihl ihr =>
    obtain ⟨-, hl, hr⟩ := everywhere_binary.1 h
    by_cases hop : op = .div
    · subst hop
      rw [evalIn_div, evalIn_div, ihl hl, ihr hr]
    · rw [evalIn_of_ne_div hop, evalIn_of_ne_div hop, ihl hl, ihr hr]
  | call f a ih =>
    obtain ⟨-, ha⟩ := everywhere_call.1 h
    rw [evalIn_call, evalIn_call, ih ha]

/-- What does not depend on a variable has none of its name. -/
theorem dependsOn_eq_false_iff {x : Variable} {e : Expr} :
    e.dependsOn x = false ↔ e.Everywhere fun t => ∀ v ∈ t.asVar?, v.name ≠ x.name := by
  induction e with
  | const c => simp [dependsOn, asVar?]
  | var v => simp [dependsOn, asVar?, Variable.sameName]
  | binary op l r ihl ihr => simp [dependsOn, asVar?, ihl, ihr]
  | call f a ih => simp [dependsOn, asVar?, ih]

end Expr

end Calculus

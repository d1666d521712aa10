import Calculus.Collector
import Calculus.Expr.Rendering
import Calculus.Simplification.Rule

/-!
# Simplification

An expression is simplified in one pass from the leaves to the root: the operands of a node
first, from left to right, then the node rebuilt from them, by the first rule that applies.
Powers and calls only have their operands simplified.

A division whose denominator simplifies to zero has no value anywhere, and fails. The spans of
the error point into the rendering of the expression as it was given, whatever has been simplified
by then.
-/

namespace Calculus

universe u v

/-- A rule applied at a node: the node as it was, with its operands simplified, and what it
became. -/
structure Reduction where
  rule : Rule
  before : Expr
  after : Expr

namespace Expr

/-- One pass over an expression, with every reduction handed to `note` in the order they are
made. -/
def simplifyPass {σ : Type u} (note : σ → Reduction → σ) :
    Expr → σ → Except (Error Float) Expr × σ
  | .const c, notes => (.ok (.const c), notes)
  | .var v, notes => (.ok (.var v), notes)
  | .binary op l r, notes =>
    match l.simplifyPass note notes with
    | (.error err, notes) => (.error (err.shift leftStart), notes)
    | (.ok l', notes) =>
      match r.simplifyPass note notes with
      | (.error err, notes) => (.error (err.shift (rightStart op l)), notes)
      | (.ok r', notes) =>
        if op = .div ∧ r'.isZero then
          (.error ⟨[(binary op l r).span, rightSpan op l r], .alwaysDividesByZero⟩, notes)
        else
          match Rule.first? Rule.all (.binary op l' r') with
          | some (rule, e') => (.ok e', note notes ⟨rule, .binary op l' r', e'⟩)
          | none => (.ok (.binary op l' r'), notes)
  | .call f a, notes =>
    match a.simplifyPass note notes with
    | (.error err, notes) => (.error (err.shift (argumentStart f)), notes)
    | (.ok a', notes) => (.ok (.call f a'), notes)

/-- Simplify an expression, and push every rule that is applied to a collector. What has been
pushed before a failure stays there. -/
def simplifyInto {σ : Type u} [Collector σ Rule] (e : Expr) (collector : σ) :
    Except (Error Float) Expr × σ :=
  e.simplifyPass (fun steps reduction => Collector.push steps reduction.rule) collector

/-- Simplify an expression. -/
def simplify (e : Expr) : Except (Error Float) Expr :=
  (e.simplifyInto ()).1

/-- Simplify an expression, and list the rules that were applied. -/
def simplifySteps (e : Expr) : Except (Error Float) (Expr × Array Rule) :=
  match e.simplifyInto (#[] : Array Rule) with
  | (.ok e', steps) => .ok (e', steps)
  | (.error err, _) => .error err

@[simp] theorem simplify_const (c : Constant) : (Expr.const c).simplify = .ok (.const c) := rfl

@[simp] theorem simplify_var (v : Variable) : (Expr.var v).simplify = .ok (.var v) := rfl

/-- A node is simplified by the first rule that applies to its simplified operands. -/
theorem simplify_binary (op : BinOp) (l r : Expr) :
    (Expr.binary op l r).simplify =
      match l.simplify, r.simplify with
      | .error err, _ => .error (err.shift leftStart)
      | .ok _, .error err => .error (err.shift (rightStart op l))
      | .ok l', .ok r' =>
        if op = .div ∧ r'.isZero then
          .error ⟨[(binary op l r).span, rightSpan op l r], .alwaysDividesByZero⟩
        else
          match Rule.first? Rule.all (.binary op l' r') with
          | some (_, e') => .ok e'
          | none => .ok (.binary op l' r') := by
  unfold simplify simplifyInto
  rw [simplifyPass]
  rcases l.simplifyPass (fun steps reduction => Collector.push steps reduction.rule) () with
    ⟨_ | l', ⟨⟩⟩
  · rfl
  simp only
  rcases r.simplifyPass (fun steps reduction => Collector.push steps reduction.rule) () with
    ⟨_ | r', ⟨⟩⟩
  · rfl
  simp only
  split
  · rfl
  · rcases Rule.first? Rule.all (.binary op l' r') with _ | ⟨rule, e'⟩ <;> rfl

theorem simplify_call (f : Func) (a : Expr) :
    (Expr.call f a).simplify =
      match a.simplify with
      | .error err => .error (err.shift (argumentStart f))
      | .ok a' => .ok (.call f a') := by
  unfold simplify simplifyInto
  rw [simplifyPass]
  rcases a.simplifyPass (fun steps reduction => Collector.push steps reduction.rule) () with
    ⟨_ | a', ⟨⟩⟩ <;> rfl

/-- Taking notes does not change what an expression simplifies to. -/
@[simp] theorem simplifyPass_fst {σ : Type u} (note : σ → Reduction → σ) (e : Expr) (notes : σ) :
    (e.simplifyPass note notes).1 = e.simplify := by
  induction e generalizing notes with
  | const c => rfl
  | var v => rfl
  | binary op l r ihl ihr =>
    rw [simplify_binary, simplifyPass, ← ihl notes]
    rcases l.simplifyPass note notes with ⟨_ | l', notes₁⟩
    · rfl
    simp only
    rw [← ihr notes₁]
    rcases r.simplifyPass note notes₁ with ⟨_ | r', notes₂⟩
    · rfl
    simp only
    split
    · rfl
    · rcases Rule.first? Rule.all (.binary op l' r') with _ | ⟨rule, e'⟩ <;> rfl
  | call f a ih =>
    rw [simplify_call, simplifyPass, ← ih notes]
    rcases a.simplifyPass note notes with ⟨_ | a', notes₁⟩ <;> rfl

/-- Notes that are taken in two ways stay related throughout a pass. -/
theorem simplifyPass_snd {σ : Type u} {τ : Type v} {note : σ → Reduction → σ}
    {note' : τ → Reduction → τ} (h : σ → τ)
    (hom : ∀ notes reduction, h (note notes reduction) = note' (h notes) reduction)
    (e : Expr) (notes : σ) :
    h (e.simplifyPass note notes).2 = (e.simplifyPass note' (h notes)).2 := by
  induction e generalizing notes with
  | const c => rfl
  | var w => rfl
  | binary op l r ihl ihr =>
    have hl := (simplifyPass_fst note l notes).trans (simplifyPass_fst note' l (h notes)).symm
    have hl' := ihl notes
    rw [simplifyPass, simplifyPass]
    generalize l.simplifyPass note notes = out at hl hl' ⊢
    generalize l.simplifyPass note' (h notes) = out' at hl hl' ⊢
    obtain ⟨left, notes₁⟩ := out
    obtain ⟨left', notes₁'⟩ := out'
    obtain rfl : left = left' := hl
    obtain rfl : h notes₁ = notes₁' := hl'
    rcases left with _ | l'
    · rfl
    simp only
    have hr := (simplifyPass_fst note r notes₁).trans (simplifyPass_fst note' r (h notes₁)).symm
    have hr' := ihr notes₁
    generalize r.simplifyPass note notes₁ = out at hr hr' ⊢
    generalize r.simplifyPass note' (h notes₁) = out' at hr hr' ⊢
    obtain ⟨right, notes₂⟩ := out
    obtain ⟨right', notes₂'⟩ := out'
    obtain rfl : right = right' := hr
    obtain rfl : h notes₂ = notes₂' := hr'
    rcases right with _ | r'
    · rfl
    simp only
    split
    · rfl
    · rcases Rule.first? Rule.all (.binary op l' r') with _ | ⟨rule, e'⟩
      · rfl
      · exact hom _ _
  | call f a ih =>
    have ha := (simplifyPass_fst note a notes).trans (simplifyPass_fst note' a (h notes)).symm
    have ha' := ih notes
    rw [simplifyPass, simplifyPass]
    generalize a.simplifyPass note notes = out at ha ha' ⊢
    generalize a.simplifyPass note' (h notes) = out' at ha ha' ⊢
    obtain ⟨inner, notes₁⟩ := out
    obtain ⟨inner', notes₁'⟩ := out'
    obtain rfl : inner = inner' := ha
    obtain rfl : h notes₁ = notes₁' := ha'
    rcases inner with _ | a' <;> rfl

@[simp] theorem simplifyInto_fst {σ : Type u} [Collector σ Rule] (e : Expr) (collector : σ) :
    (e.simplifyInto collector).1 = e.simplify :=
  simplifyPass_fst _ e collector

end Expr

end Calculus

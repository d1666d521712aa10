import Calculus.Expr.Rendering

/-!
# Positions

A position is a path from the root of an expression to one of its subexpressions, so that equal
subexpressions in different places are told apart. The text of an expression is what stands before
a position, the text of the subexpression there, and what stands after it (`render_eq_append`);
the byte range in the middle is the span of the position. Spans are defined by the text alone:
that the lengths and starts of `Expr.Rendering` give the same ranges is `length_render` and the
three `spanAt` equations, one for each way down.
-/

namespace Calculus

/-- A way down from a node to one of its operands. -/
inductive Branch where
  | left
  | right
  | argument
  deriving DecidableEq

/-- The ways down from the root of a tree, the first one first. -/
abbrev Position := List Branch

/-- The bytes of a text in a span. -/
def Span.bytes (span : Span) (text : String) : ByteArray :=
  text.toByteArray.extract span.start span.stop

namespace Expr

/-- The subexpression at a position. -/
def subexpr? : Expr → Position → Option Expr
  | e, [] => some e
  | .binary _ l _, .left :: p => l.subexpr? p
  | .binary _ _ r, .right :: p => r.subexpr? p
  | .call _ a, .argument :: p => a.subexpr? p
  | _, _ :: _ => none

/-- The expression with another subexpression at a position. -/
def replaceAt : Expr → Position → Expr → Expr
  | _, [], t => t
  | .binary op l r, .left :: p, t => .binary op (l.replaceAt p t) r
  | .binary op l r, .right :: p, t => .binary op l (r.replaceAt p t)
  | .call f a, .argument :: p, t => .call f (a.replaceAt p t)
  | e, _ :: _, _ => e

/-- What stands before a position in the text of an expression. -/
def textBefore : Expr → Position → String
  | .binary _ l _, .left :: p => "(" ++ l.textBefore p
  | .binary op l r, .right :: p => "(" ++ l.render ++ " " ++ op.symbol ++ " " ++ r.textBefore p
  | .call f a, .argument :: p => f.name ++ "(" ++ a.textBefore p
  | _, _ => ""

/-- What stands after a position in the text of an expression. -/
def textAfter : Expr → Position → String
  | .binary op l r, .left :: p => l.textAfter p ++ " " ++ op.symbol ++ " " ++ r.render ++ ")"
  | .binary _ _ r, .right :: p => r.textAfter p ++ ")"
  | .call _ a, .argument :: p => a.textAfter p ++ ")"
  | _, _ => ""

/-- The bytes that the subexpression at a position takes up in the text of an expression. -/
def spanAt (e : Expr) (p : Position) : Span :=
  .ofLength (e.textBefore p).utf8ByteSize ((e.subexpr? p).elim 0 (·.render.utf8ByteSize))

@[simp] theorem subexpr?_nil (e : Expr) : e.subexpr? [] = some e := by
  cases e <;> rfl

@[simp] theorem replaceAt_nil (e t : Expr) : e.replaceAt [] t = t := by
  cases e <;> rfl

@[simp] theorem textBefore_nil (e : Expr) : e.textBefore [] = "" := by
  cases e <;> rfl

@[simp] theorem textAfter_nil (e : Expr) : e.textAfter [] = "" := by
  cases e <;> rfl

/-- The subexpressions of a subexpression are subexpressions. -/
theorem subexpr?_append (e : Expr) (p q : Position) :
    e.subexpr? (p ++ q) = (e.subexpr? p).bind (·.subexpr? q) := by
  fun_induction subexpr? e p with
  | case1 => rfl
  | case2 _ l _ p ih => exact ih
  | case3 _ _ r p ih => exact ih
  | case4 _ a p ih => exact ih
  | case5 e b p hl hr ha =>
    rw [List.cons_append, subexpr?.eq_5 e b (p ++ q) hl hr ha]
    rfl

/-- A property holds of every subexpression, the expression itself included. -/
def Everywhere (P : Expr → Prop) (e : Expr) : Prop :=
  ∀ p t, e.subexpr? p = some t → P t

section Everywhere

variable {P : Expr → Prop}

theorem Everywhere.self {e : Expr} (h : e.Everywhere P) : P e :=
  h [] e (subexpr?_nil e)

theorem Everywhere.subexpr {e t : Expr} {p : Position} (h : e.Everywhere P)
    (ht : e.subexpr? p = some t) : t.Everywhere P := by
  intro q u hu
  refine h (p ++ q) u ?_
  rw [subexpr?_append, ht, Option.bind_some, hu]

theorem Everywhere.imp {Q : Expr → Prop} {e : Expr} (h : e.Everywhere P) (imp : ∀ t, P t → Q t) :
    e.Everywhere Q :=
  fun p t ht => imp t (h p t ht)

@[simp] theorem everywhere_const {c : Constant} : (const c).Everywhere P ↔ P (.const c) := by
  refine ⟨fun h => h.self, fun h p t ht => ?_⟩
  cases p with
  | nil => cases ht; exact h
  | cons b p => cases b <;> cases ht

@[simp] theorem everywhere_var {v : Variable} : (var v).Everywhere P ↔ P (.var v) := by
  refine ⟨fun h => h.self, fun h p t ht => ?_⟩
  cases p with
  | nil => cases ht; exact h
  | cons b p => cases b <;> cases ht

@[simp] theorem everywhere_binary {op : BinOp} {l r : Expr} :
    (binary op l r).Everywhere P ↔ P (.binary op l r) ∧ l.Everywhere P ∧ r.Everywhere P := by
  constructor
  · intro h
    exact ⟨h.self, fun p => h (.left :: p), fun p => h (.right :: p)⟩
  · rintro ⟨h, hl, hr⟩ p t ht
    cases p with
    | nil => cases ht; exact h
    | cons b p =>
      cases b with
      | left => exact hl p t ht
      | right => exact hr p t ht
      | argument => cases ht

@[simp] theorem everywhere_call {f : Func} {a : Expr} :
    (call f a).Everywhere P ↔ P (.call f a) ∧ a.Everywhere P := by
  constructor
  · intro h
    exact ⟨h.self, fun p => h (.argument :: p)⟩
  · rintro ⟨h, ha⟩ p t ht
    cases p with
    | nil => cases ht; exact h
    | cons b p =>
      cases b with
      | argument => exact ha p t ht
      | left | right => cases ht

instance decidableEverywhere [DecidablePred P] : (e : Expr) → Decidable (e.Everywhere P)
  | .const _ => decidable_of_decidable_of_iff everywhere_const.symm
  | .var _ => decidable_of_decidable_of_iff everywhere_var.symm
  | .binary _ l r =>
    have := decidableEverywhere l
    have := decidableEverywhere r
    decidable_of_decidable_of_iff everywhere_binary.symm
  | .call _ a =>
    have := decidableEverywhere a
    decidable_of_decidable_of_iff everywhere_call.symm

end Everywhere

/-- The text of an expression is the text of any of its subexpressions, between what stands before
and what stands after it. -/
theorem render_eq_append {e t : Expr} {p : Position} (h : e.subexpr? p = some t) :
    e.render = e.textBefore p ++ t.render ++ e.textAfter p := by
  fun_induction subexpr? e p with
  | case1 e =>
    obtain rfl : e = t := by simpa using h
    simp
  | case2 op l r p ih => simp [render, textBefore, textAfter, ih h, String.append_assoc]
  | case3 op l r p ih => simp [render, textBefore, textAfter, ih h, String.append_assoc]
  | case4 f a p ih => simp [render, textBefore, textAfter, ih h, String.append_assoc]
  | case5 => simp at h

/-- The length of an expression counts the bytes of its text. -/
@[simp] theorem length_render (e : Expr) : e.render.utf8ByteSize = e.length := by
  induction e with
  | const c => rfl
  | var v => rfl
  | binary op l r ihl ihr =>
    have one : "(".utf8ByteSize = 1 ∧ ")".utf8ByteSize = 1 ∧ " ".utf8ByteSize = 1 := by decide
    simp only [render, length, String.utf8ByteSize_append, ihl, ihr]
    omega
  | call f a ih =>
    have one : "(".utf8ByteSize = 1 ∧ ")".utf8ByteSize = 1 := by decide
    simp only [render, length, String.utf8ByteSize_append, ih]
    omega

/-- The bytes of the text in the span of a position are the text of the subexpression there. -/
theorem bytes_spanAt {e t : Expr} {p : Position} (h : e.subexpr? p = some t) :
    (e.spanAt p).bytes e.render = t.render.toByteArray := by
  unfold spanAt Span.bytes Span.ofLength
  rw [render_eq_append h, h, Option.elim_some, String.append_assoc, String.toByteArray_append,
    String.toByteArray_append]
  calc
    _ = (t.render.toByteArray ++ (e.textAfter p).toByteArray).extract 0 t.render.utf8ByteSize :=
      ByteArray.extract_append_size_add' String.size_toByteArray.symm
    _ = t.render.toByteArray := ByteArray.extract_append_eq_left String.size_toByteArray.symm

/-- The whole expression takes up its own span. -/
theorem spanAt_nil (e : Expr) : e.spanAt [] = e.span := by
  simp [spanAt, span]

/-- A position in the left operand is as far right as the left operand. -/
theorem spanAt_left (op : BinOp) (l r : Expr) (p : Position) :
    (binary op l r).spanAt (.left :: p) = (l.spanAt p).shift leftStart := by
  have paren : "(".utf8ByteSize = leftStart := by decide
  simp only [spanAt, Span.ofLength, Span.shift, textBefore, subexpr?, String.utf8ByteSize_append,
    paren, Span.mk.injEq]
  omega

/-- A position in the right operand is as far right as the right operand. -/
theorem spanAt_right (op : BinOp) (l r : Expr) (p : Position) :
    (binary op l r).spanAt (.right :: p) = (r.spanAt p).shift (rightStart op l) := by
  have paren : "(".utf8ByteSize = leftStart := by decide
  have blank : " ".utf8ByteSize = 1 := by decide
  simp only [spanAt, Span.ofLength, Span.shift, textBefore, subexpr?, String.utf8ByteSize_append,
    length_render, rightStart, paren, blank, Span.mk.injEq]
  omega

/-- A position in the argument of a call is as far right as the argument. -/
theorem spanAt_argument (f : Func) (a : Expr) (p : Position) :
    (call f a).spanAt (.argument :: p) = (a.spanAt p).shift (argumentStart f) := by
  have paren : "(".utf8ByteSize = 1 := by decide
  simp only [spanAt, Span.ofLength, Span.shift, textBefore, subexpr?, String.utf8ByteSize_append,
    argumentStart, paren, Span.mk.injEq]
  omega

end Expr

end Calculus

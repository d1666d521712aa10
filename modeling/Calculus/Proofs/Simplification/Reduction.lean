import Calculus.Simplification.Pass

/-!
# What the rules do

`Reduces` lists all that the six rules do at the top of a tree, each case with the tests that
select it, the order in which the rules are tried included. `Rule.first?_all_eq_some_iff` says
that the list is exact, and `simplify_binary_eq_ok_iff` that a node which can be simplified is
rebuilt from its simplified operands and reduced at most once. Everything else about the pass is
derived from these two. An expression that simplifies to a zero constant `Vanishes`.
-/

namespace Calculus

/-- The reduction of a tree at its top, and the rule that makes it. -/
inductive Reduces : Rule → Expr → Expr → Prop where
  | addZeros {l r : Expr} (hl : l.isZero) (hr : r.isZero) :
    Reduces .addZero (.binary .add l r) .zero
  | zeroAdd {l r : Expr} (hl : l.isZero) (hr : r.isZero = false) :
    Reduces .addZero (.binary .add l r) r
  | addZero {l r : Expr} (hl : l.isZero = false) (hr : r.isZero) :
    Reduces .addZero (.binary .add l r) l
  | subZeros {l r : Expr} (hl : l.isZero) (hr : r.isZero) :
    Reduces .subZero (.binary .sub l r) .zero
  | zeroSub {l r : Expr} (hl : l.isZero) (hr : r.isZero = false) :
    Reduces .subZero (.binary .sub l r) r
  | subZero {l r : Expr} (hl : l.isZero = false) (hr : r.isZero) :
    Reduces .subZero (.binary .sub l r) l
  | mulZero {l r : Expr} (h : l.isZero ∨ r.isZero) :
    Reduces .mulZero (.binary .mul l r) .zero
  | oneMul {l r : Expr} (hl : l.isZero = false) (hr : r.isZero = false) (h : l.isOne) :
    Reduces .mulOne (.binary .mul l r) r
  | mulOne {l r : Expr} (hl : l.isZero = false) (hr : r.isZero = false) (h : l.isOne = false)
    (h' : r.isOne) : Reduces .mulOne (.binary .mul l r) l
  | zeroDiv {l r : Expr} (hl : l.isZero) : Reduces .zeroNumerator (.binary .div l r) .zero
  | divOne {l r : Expr} (hl : l.isZero = false) (hr : r.isOne) :
    Reduces .divOne (.binary .div l r) l

namespace Rule

@[simp] theorem first?_all_const (c : Constant) : first? all (.const c) = none := rfl

@[simp] theorem first?_all_var (v : Variable) : first? all (.var v) = none := rfl

@[simp] theorem first?_all_call (f : Func) (a : Expr) : first? all (.call f a) = none := rfl

@[simp] theorem first?_all_pow (l r : Expr) : first? all (.binary .pow l r) = none := rfl

theorem first?_all_add (l r : Expr) :
    first? all (.binary .add l r) = (dropZero l r).map (addZero, ·) := by
  cases h : dropZero l r <;>
    simp [first?, all, additive, multiplicative, divisive, fire?, h]

theorem first?_all_sub (l r : Expr) :
    first? all (.binary .sub l r) = (dropZero l r).map (subZero, ·) := by
  cases h : dropZero l r <;>
    simp [first?, all, additive, multiplicative, divisive, fire?, h]

theorem first?_all_mul (l r : Expr) :
    first? all (.binary .mul l r) =
      if l.isZero || r.isZero then some (mulZero, .zero)
      else if l.isOne then some (mulOne, r)
      else if r.isOne then some (mulOne, l)
      else none := by
  simp only [first?, all, additive, multiplicative, divisive, fire?, List.cons_append,
    List.nil_append, List.findSome?_cons, List.findSome?_nil, Option.map_none]
  cases l.isZero || r.isZero <;> cases l.isOne <;> cases r.isOne <;> rfl

theorem first?_all_div (l r : Expr) :
    first? all (.binary .div l r) =
      if l.isZero then some (zeroNumerator, .zero)
      else if r.isOne then some (divOne, l)
      else none := by
  simp only [first?, all, additive, multiplicative, divisive, fire?, List.cons_append,
    List.nil_append, List.findSome?_cons, List.findSome?_nil, Option.map_none]
  cases l.isZero <;> cases r.isOne <;> rfl

theorem reduces_of_first? {rule : Rule} {e e' : Expr} (h : first? all e = some (rule, e')) :
    Reduces rule e e' := by
  cases e with
  | const c => simp at h
  | var v => simp at h
  | call f a => simp at h
  | binary op l r =>
    cases op with
    | add =>
      rw [first?_all_add, dropZero] at h
      split at h <;> simp only [Option.map_some, Option.map_none, Option.some.injEq,
        Prod.mk.injEq, reduceCtorEq] at h <;> obtain ⟨rfl, rfl⟩ := h
      · exact .addZeros ‹_› ‹_›
      · exact .zeroAdd ‹_› ‹_›
      · exact .addZero ‹_› ‹_›
    | sub =>
      rw [first?_all_sub, dropZero] at h
      split at h <;> simp only [Option.map_some, Option.map_none, Option.some.injEq,
        Prod.mk.injEq, reduceCtorEq] at h <;> obtain ⟨rfl, rfl⟩ := h
      · exact .subZeros ‹_› ‹_›
      · exact .zeroSub ‹_› ‹_›
      · exact .subZero ‹_› ‹_›
    | mul =>
      rw [first?_all_mul] at h
      by_cases hz : (l.isZero || r.isZero) = true
      · obtain ⟨rfl, rfl⟩ := by simpa [hz] using h
        exact .mulZero (by simpa using hz)
      · rw [if_neg hz] at h
        simp only [Bool.or_eq_true, not_or, Bool.not_eq_true] at hz
        by_cases hl : l.isOne
        · obtain ⟨rfl, rfl⟩ := by simpa [hl] using h
          exact .oneMul hz.1 hz.2 hl
        · obtain ⟨hr, rfl, rfl⟩ := by simpa [hl] using h
          exact .mulOne hz.1 hz.2 (by simpa using hl) hr
    | div =>
      rw [first?_all_div] at h
      by_cases hl : l.isZero
      · obtain ⟨rfl, rfl⟩ := by simpa [hl] using h
        exact .zeroDiv hl
      · obtain ⟨hr, rfl, rfl⟩ := by simpa [hl] using h
        exact .divOne (by simpa using hl) hr
    | pow => simp at h

/-- The first rule that applies is the one that reduces. -/
theorem first?_all_eq_some_iff {rule : Rule} {e e' : Expr} :
    first? all e = some (rule, e') ↔ Reduces rule e e' := by
  refine ⟨reduces_of_first?, fun h => ?_⟩
  cases h <;>
    simp_all [first?_all_add, first?_all_sub, first?_all_mul, first?_all_div, dropZero]

end Rule

/-- A reduction of a node leaves one of its operands or the reserved zero. -/
theorem Reduces.result {rule : Rule} {op : BinOp} {l r e : Expr}
    (h : Reduces rule (.binary op l r) e) : e = l ∨ e = r ∨ e = .zero := by
  cases h <;> simp

namespace Expr

/-- A node is simplified to the node of its simplified operands, reduced if a rule applies. -/
theorem simplify_binary_eq_ok_iff {op : BinOp} {l r s : Expr} :
    (binary op l r).simplify = .ok s ↔
      ∃ l' r', l.simplify = .ok l' ∧ r.simplify = .ok r' ∧ ¬ (op = .div ∧ r'.isZero) ∧
        ((∃ rule, Reduces rule (.binary op l' r') s) ∨
          Rule.first? Rule.all (.binary op l' r') = none ∧ s = .binary op l' r') := by
  rw [simplify_binary]
  constructor
  · intro h
    split at h
    · cases h
    · cases h
    · rename_i l' r' hl hr
      split at h
      · cases h
      · rename_i hz
        refine ⟨l', r', hl, hr, hz, ?_⟩
        split at h
        · rename_i rule e' hf
          cases h
          exact .inl ⟨rule, Rule.first?_all_eq_some_iff.1 hf⟩
        · rename_i hf
          cases h
          exact .inr ⟨hf, rfl⟩
  · rintro ⟨l', r', hl, hr, hz, ⟨rule, h⟩ | ⟨hf, rfl⟩⟩
    · simp only [hl, hr, if_neg hz, Rule.first?_all_eq_some_iff.2 h]
    · simp only [hl, hr, if_neg hz, hf]

theorem simplify_call_eq_ok_iff {f : Func} {a s : Expr} :
    (call f a).simplify = .ok s ↔ ∃ a', a.simplify = .ok a' ∧ s = .call f a' := by
  rw [simplify_call]
  cases a.simplify with
  | error err => simp
  | ok a' => simp [eq_comm]

/-- The expression simplifies to a constant worth zero. -/
def Vanishes (e : Expr) : Prop :=
  ∃ s, e.simplify = .ok s ∧ s.isZero

theorem vanishes_iff_of_simplify {e s : Expr} (h : e.simplify = .ok s) :
    e.Vanishes ↔ s.isZero := by
  simp [Vanishes, h]

instance : DecidablePred Vanishes := fun e =>
  match h : e.simplify with
  | .ok s => decidable_of_decidable_of_iff (p := s.isZero = true) (by simp [Vanishes, h])
  | .error _ => isFalse (by simp [Vanishes, h])

end Expr

end Calculus

import Calculus.Proofs.Derivative.Leaves
import Calculus.Proofs.Evaluation.Outcome
import Calculus.Proofs.Simplification.History
import Calculus.Proofs.Simplification.Value

/-!
# Exact simplification

Where no constant is zero, simplification is exact: it succeeds, and the simplified expression has
the outcome of the original everywhere, the same double or a failure with the same cause, for
infinities and what is not a number as well. All that is left to the rules is to drop factors and
denominators of one, and no rule makes a zero out of operands that are none, so the pass cannot
leave this domain on the way up (`reduces_of_zeroFree`).

Differentiation stays in it too: a derivative of any order of an expression without zeros is the
reserved zero, or it has no zeros either.
-/

namespace Calculus

namespace Expr

/-- No constant is worth zero. -/
def ZeroFree (e : Expr) : Prop :=
  e.Everywhere fun t => t.isZero = false

instance : DecidablePred ZeroFree := fun e =>
  inferInstanceAs (Decidable (e.Everywhere fun t => t.isZero = false))

theorem ZeroFree.isZero {e : Expr} (h : e.ZeroFree) : e.isZero = false :=
  Everywhere.self h

theorem zeroFree_binary {op : BinOp} {l r : Expr} :
    (binary op l r).ZeroFree ↔ l.ZeroFree ∧ r.ZeroFree := by
  simp [ZeroFree, Expr.isZero]

theorem zeroFree_call {f : Func} {a : Expr} : (call f a).ZeroFree ↔ a.ZeroFree := by
  simp [ZeroFree, Expr.isZero]

/-- A reduction of a node without zeros drops a factor or a denominator of one. -/
theorem reduces_of_zeroFree {rule : Rule} {op : BinOp} {l r s : Expr}
    (h : Reduces rule (.binary op l r) s) (hl : l.ZeroFree) (hr : r.ZeroFree) :
    (rule = .mulOne ∨ rule = .divOne) ∧ s.ZeroFree ∧
      ∀ ρ, s.outcome binary64 ρ = (binary op l r).outcome binary64 ρ := by
  have zl := hl.isZero
  have zr := hr.isZero
  cases h with
  | oneMul _ _ one =>
    refine ⟨.inl rfl, hr, fun ρ => ?_⟩
    exact (outcome_unit_mul (evalIn_of_isOne one) Double.one_mul).symm
  | mulOne _ _ _ one =>
    refine ⟨.inl rfl, hl, fun ρ => ?_⟩
    exact (outcome_mul_unit (evalIn_of_isOne one) Double.mul_one).symm
  | divOne _ one =>
    refine ⟨.inr rfl, hl, fun ρ => ?_⟩
    exact (outcome_div_unit (evalIn_of_isOne one) (by decide) Double.div_one).symm
  | addZeros zero _ | zeroAdd zero _ | subZeros zero _ | zeroSub zero _ | zeroDiv zero =>
    rw [zl] at zero
    cases zero
  | addZero _ zero | subZero _ zero =>
    rw [zr] at zero
    cases zero
  | mulZero zero => simp [zl, zr] at zero

/-- An expression without zeros is simplified, to one without zeros and of the same outcome. -/
theorem simplify_of_zeroFree {e : Expr} (h : e.ZeroFree) :
    ∃ s, e.simplify = .ok s ∧ s.ZeroFree ∧
      ∀ ρ, s.outcome binary64 ρ = e.outcome binary64 ρ := by
  induction e with
  | const c => exact ⟨_, rfl, h, fun ρ => rfl⟩
  | var v => exact ⟨_, rfl, h, fun ρ => rfl⟩
  | binary op l r ihl ihr =>
    obtain ⟨freeL, freeR⟩ := zeroFree_binary.1 h
    obtain ⟨l', hl, freeL', outcomeL⟩ := ihl freeL
    obtain ⟨r', hr, freeR', outcomeR⟩ := ihr freeR
    have operands (ρ : Variable → Float) : (binary op l' r').outcome binary64 ρ =
        (binary op l r).outcome binary64 ρ := outcome_binary_congr op (outcomeL ρ) (outcomeR ρ)
    have hz : ¬ (op = .div ∧ r'.isZero) := by simp [freeR'.isZero]
    cases hf : Rule.first? Rule.all (.binary op l' r') with
    | none =>
      have hs := simplify_binary_eq_ok_iff.2 ⟨l', r', hl, hr, hz, .inr ⟨hf, rfl⟩⟩
      exact ⟨_, hs, zeroFree_binary.2 ⟨freeL', freeR'⟩, operands⟩
    | some reduced =>
      obtain ⟨rule, s⟩ := reduced
      have reduction := Rule.first?_all_eq_some_iff.1 hf
      have hs := simplify_binary_eq_ok_iff.2 ⟨l', r', hl, hr, hz, .inl ⟨rule, reduction⟩⟩
      obtain ⟨-, freeS, outcomeS⟩ := reduces_of_zeroFree reduction freeL' freeR'
      exact ⟨s, hs, freeS, fun ρ => (outcomeS ρ).trans (operands ρ)⟩
  | call f a ih =>
    obtain ⟨a', ha, freeA, outcomeA⟩ := ih (zeroFree_call.1 h)
    exact ⟨call f a', simplify_call_eq_ok_iff.2 ⟨a', ha, rfl⟩, zeroFree_call.2 freeA,
      fun ρ => outcome_call_congr f (outcomeA ρ)⟩

theorem zeroFree_of_simplify {e s : Expr} (h : e.ZeroFree) (hs : e.simplify = .ok s) :
    s.ZeroFree := by
  obtain ⟨s', hs', free, -⟩ := simplify_of_zeroFree h
  cases hs.symm.trans hs'
  exact free

/-- All that is done to an expression without zeros is to drop factors and denominators of one. -/
theorem rule_of_zeroFree {e : Expr} (h : e.ZeroFree) {reduction : Reduction}
    (made : reduction ∈ e.reductions) :
    reduction.rule = .mulOne ∨ reduction.rule = .divOne := by
  induction e with
  | const c => simp at made
  | var v => simp at made
  | binary op l r ihl ihr =>
    obtain ⟨freeL, freeR⟩ := zeroFree_binary.1 h
    rcases mem_reductions_binary made with made | made | ⟨l', r', hl, hr, reduces⟩
    · exact ihl freeL made
    · exact ihr freeR made
    · exact (reduces_of_zeroFree reduces (zeroFree_of_simplify freeL hl)
        (zeroFree_of_simplify freeR hr)).1
  | call f a ih =>
    rw [reductions_call] at made
    exact ih (zeroFree_call.1 h) made

/-- Simplification succeeds, drops nothing but factors and denominators of one, and keeps the
outcome of every evaluation: the same double, bit for bit (there is one that is not a number),
or a failure with the same cause. -/
def ExactlySimplified (e : Expr) : Prop :=
  ∃ s steps, e.simplifySteps = .ok (s, steps) ∧
    (∀ rule ∈ steps, rule = .mulOne ∨ rule = .divOne) ∧
    ∀ store, (s.eval store).mapError Error.cause = (e.eval store).mapError Error.cause

theorem exactlySimplified_of_zeroFree {e : Expr} (h : e.ZeroFree) : e.ExactlySimplified := by
  obtain ⟨s, hs, -, outcome⟩ := simplify_of_zeroFree h
  refine ⟨s, _, simplifySteps_of_simplify hs, ?_, fun store => outcome store.value⟩
  intro rule pushed
  obtain ⟨reduction, made, rfl⟩ : ∃ reduction ∈ e.reductions, reduction.rule = rule := by
    simpa using pushed
  exact rule_of_zeroFree h made

/-- Being no zero is a property of leaves. -/
theorem leafProperty_isZero : LeafProperty fun t => t.isZero = false where
  binary _ _ _ := rfl
  call _ _ := rfl
  one := isZero_one
  minusOne := isZero_minusOne

/-- **Exact simplification.** An expression without zero constants is simplified exactly, and so
are its derivatives of any order, which have no zero constants either, up to one that is the
reserved zero. -/
theorem simplify_exact_of_zeroFree (e : Expr) (h : e.ZeroFree) :
    e.ExactlySimplified ∧
      ∀ x n, e.nthDerivative x n = zero ∨
        (e.nthDerivative x n).ZeroFree ∧ (e.nthDerivative x n).ExactlySimplified := by
  refine ⟨exactlySimplified_of_zeroFree h, fun x n => ?_⟩
  rcases everywhere_nthDerivative leafProperty_isZero h x n with zero | free
  · exact .inl zero
  · exact .inr ⟨free, exactlySimplified_of_zeroFree free⟩

/-- Units are dropped in the base, in the exponent and beside the power. Where `x` is infinite the
value stays, and where `x` is not positive the failure. -/
theorem simplify_exact_of_units :
    let x := var ⟨"x", 0⟩
    let e := (one * x) ^ call .ln (x / one) * const ⟨"unit", 1.0⟩
    e.ZeroFree ∧ e.simplifySteps = .ok (x ^ call .ln x, #[.mulOne, .divOne, .mulOne]) ∧
      e.ExactlySimplified ∧
      ∀ y n, e.nthDerivative y n = zero ∨
        (e.nthDerivative y n).ZeroFree ∧ (e.nthDerivative y n).ExactlySimplified := by
  intro x e
  have free : e.ZeroFree := by decide
  exact ⟨free, rfl, simplify_exact_of_zeroFree e free⟩

end Expr

end Calculus

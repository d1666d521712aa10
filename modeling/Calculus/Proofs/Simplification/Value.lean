import Calculus.Proofs.Double.Identities
import Calculus.Proofs.Evaluation.Nodes
import Calculus.Proofs.Simplification.Reduction

/-!
# Simplification keeps values

Where every subexpression has a finite value, a simplified expression has the value of the
original, up to the sign of zero. A rule may change that sign (`0 * x` becomes `0` for a negative
`x`), and what surrounds the node sees the change; so the induction carries `Double.Alike` values
through every operator and through the three tests that make an evaluation fail.

The one exception is the rule for differences, which turns `0 - a` into `a`.

Sums, differences, products and quotients are those of doubles. Powers, logarithms, sines and
cosines come from a library of functions, and all that is asked of it is that doubles which
compare equal are not told apart in a finite result.
-/

namespace Calculus

universe u

open Double

/-- A library of elementary functions on doubles. -/
structure Library where
  pow : Float → Float → Float
  ln : Float → Float
  sin : Float → Float
  cos : Float → Float

namespace Library

/-- Double-precision arithmetic with the functions of a library. -/
def arithmetic (L : Library) : Arithmetic Float :=
  { binary64 with pow := L.pow, ln := L.ln, sin := L.sin, cos := L.cos }

/-- The functions expressions are evaluated with. -/
def native : Library := ⟨Float.pow, Float.log, Float.sin, Float.cos⟩

theorem eval_eq_evalIn_native (s : Store) (e : Expr) :
    e.eval s = e.evalIn native.arithmetic s.value := rfl

/-- Finite results agree on finite operands that compare equal. -/
structure Respectful (L : Library) : Prop where
  pow {x x' y y' : Float} (hx : x.isFinite) (hy : y.isFinite) (ex : x == x') (ey : y == y')
    (finite : (L.pow x y).isFinite) : L.pow x y == L.pow x' y'
  ln {x x' : Float} (hx : x.isFinite) (ex : x == x') (finite : (L.ln x).isFinite) :
    L.ln x == L.ln x'
  sin {x x' : Float} (hx : x.isFinite) (ex : x == x') (finite : (L.sin x).isFinite) :
    L.sin x == L.sin x'
  cos {x x' : Float} (hx : x.isFinite) (ex : x == x') (finite : (L.cos x).isFinite) :
    L.cos x == L.cos x'

section Respectful

variable {L : Library} {a a' b b' : Float}

/-- Alike operands are both good for an operator or neither. -/
theorem defined_of_alike {op : BinOp} (ha : Alike a a') (hb : Alike b b')
    (h : op.Defined L.arithmetic a b) : op.Defined L.arithmetic a' b' := by
  cases op with
  | add | sub | mul => trivial
  | div =>
    have zero : (b == 0.0) = (b' == 0.0) := hb.beq_zero
    exact zero.symm.trans h
  | pow =>
    rintro ⟨za, zb⟩
    exact h ⟨ha.beq_zero.trans za, hb.beq_zero.trans zb⟩

theorem defined_call_of_alike {f : Func} (ha : Alike a a') (h : f.Defined L.arithmetic a) :
    f.Defined L.arithmetic a' := by
  cases f with
  | sin | cos => trivial
  | ln => exact ha.le_zero.symm.trans h

/-- On alike operands an operator has alike results. -/
theorem Respectful.apply (hL : L.Respectful) {op : BinOp} (ha : Alike a a') (hb : Alike b b')
    (fa : a.isFinite) (fb : b.isFinite) (h : op.Defined L.arithmetic a b)
    (finite : (op.apply L.arithmetic a b).isFinite) :
    Alike (op.apply L.arithmetic a b) (op.apply L.arithmetic a' b') := by
  cases op with
  | add => exact ha.add hb
  | sub => exact ha.sub hb
  | mul => exact ha.mul hb
  | div => exact ha.div hb h
  | pow => exact (beq_iff.1 (hL.pow fa fb (beq_of_alike ha fa) (beq_of_alike hb fb) finite)).1

theorem Respectful.apply_call (hL : L.Respectful) {f : Func} (ha : Alike a a') (fa : a.isFinite)
    (finite : (f.apply L.arithmetic a).isFinite) :
    Alike (f.apply L.arithmetic a) (f.apply L.arithmetic a') := by
  have equal := beq_of_alike ha fa
  cases f with
  | ln => exact (beq_iff.1 (hL.ln fa equal finite)).1
  | sin => exact (beq_iff.1 (hL.sin fa equal finite)).1
  | cos => exact (beq_iff.1 (hL.cos fa equal finite)).1

end Respectful

/-- What every library gives for powers with exponent one, for the logarithm of one, and for the
sine and cosine of zero. -/
def plainest : Library := ⟨fun x _ => x, fun _ => 0.0, fun x => x, fun _ => 1.0⟩

theorem plainest_respectful : plainest.Respectful where
  pow _ _ ex _ _ := ex
  ln _ _ _ := show (0.0 == (0.0 : Float)) = true by decide
  sin _ ex _ := ex
  cos _ _ _ := show (1.0 == (1.0 : Float)) = true by decide

end Library

namespace Expr

variable {L : Library} {ρ : Variable → Float}

/-- The expression has a finite value. -/
def FiniteIn (L : Library) (ρ : Variable → Float) (e : Expr) : Prop :=
  ∃ v, e.evalIn L.arithmetic ρ = .ok v ∧ v.isFinite

/-- A difference whose minus sign is lost: zero minus something else. -/
def LosesMinus (e : Expr) : Prop :=
  ∃ l r, e = .binary .sub l r ∧ l.Vanishes ∧ ¬ r.Vanishes

instance : DecidablePred (FiniteIn L ρ) := fun e =>
  match h : e.evalIn L.arithmetic ρ with
  | .ok v =>
    decidable_of_decidable_of_iff (p := v.isFinite = true) (by simp [FiniteIn, h])
  | .error _ => isFalse (by simp [FiniteIn, h])

theorem losesMinus_sub {l r : Expr} :
    (binary .sub l r).LosesMinus ↔ l.Vanishes ∧ ¬ r.Vanishes := by
  constructor
  · rintro ⟨_, _, he, h⟩
    cases he
    exact h
  · intro h
    exact ⟨l, r, rfl, h⟩

instance : DecidablePred LosesMinus
  | .binary .sub _ _ => decidable_of_decidable_of_iff losesMinus_sub.symm
  | .const _ | .var _ | .call _ _ => isFalse (by simp [LosesMinus])
  | .binary .add _ _ | .binary .mul _ _ | .binary .div _ _ | .binary .pow _ _ =>
    isFalse (by simp [LosesMinus])

theorem beq_zero_of_isZero {e : Expr} {v : Float} (h : e.isZero)
    (value : e.evalIn L.arithmetic ρ = .ok v) : (v == 0.0) = true := by
  cases e with
  | const c => cases value; exact h
  | var | binary | call => cases h

/-- A constant that counts as one is worth one, in any arithmetic. -/
theorem evalIn_of_isOne {α : Type u} {A : Arithmetic α} {values : Variable → α} {e : Expr}
    (h : e.isOne) : e.evalIn A values = .ok (A.ofFloat 1.0) := by
  cases e with
  | const c =>
    have one : c.value = 1.0 := eq_one_of_beq h
    rw [evalIn_const, one]
  | var | binary | call => cases h

theorem eq_one_of_isOne {e : Expr} {v : Float} (h : e.isOne)
    (value : e.evalIn L.arithmetic ρ = .ok v) : v = 1.0 :=
  Except.ok.inj (value.symm.trans (evalIn_of_isOne h))

/-- The reserved zero has a value alike to any zero. -/
theorem zero_evalIn_alike {v : Float} (h : (v == 0.0) = true) :
    ∃ w, zero.evalIn L.arithmetic ρ = .ok w ∧ Alike v w :=
  ⟨0.0, rfl, .inr ⟨h, by decide⟩⟩

/-- A reduction keeps the value of a node, up to the sign of zero, unless it loses a minus. -/
theorem reduces_evalIn {rule : Rule} {op : BinOp} {l r s : Expr} {a b : Float}
    (h : Reduces rule (.binary op l r) s) (minus : op = .sub → l.isZero → r.isZero)
    (hl : l.evalIn L.arithmetic ρ = .ok a) (hr : r.evalIn L.arithmetic ρ = .ok b)
    (fa : a.isFinite) (fb : b.isFinite) (hop : op.Defined L.arithmetic a b) :
    ∃ w, s.evalIn L.arithmetic ρ = .ok w ∧ Alike (op.apply L.arithmetic a b) w := by
  cases h with
  | addZeros zl zr =>
    have za := beq_zero_of_isZero zl hl
    have zb := beq_zero_of_isZero zr hr
    exact zero_evalIn_alike ((Double.add_zero a zb).beq_zero.trans za)
  | zeroAdd zl zr => exact ⟨b, hr, Double.zero_add (beq_zero_of_isZero zl hl) b⟩
  | addZero zl zr => exact ⟨a, hl, Double.add_zero a (beq_zero_of_isZero zr hr)⟩
  | subZeros zl zr =>
    have za := beq_zero_of_isZero zl hl
    have zb := beq_zero_of_isZero zr hr
    exact zero_evalIn_alike ((Double.sub_zero a zb).beq_zero.trans za)
  | zeroSub zl zr =>
    rw [minus rfl zl] at zr
    cases zr
  | subZero zl zr => exact ⟨a, hl, Double.sub_zero a (beq_zero_of_isZero zr hr)⟩
  | mulZero z =>
    rcases z with zl | zr
    · exact zero_evalIn_alike (Double.zero_mul (beq_zero_of_isZero zl hl) fb)
    · exact zero_evalIn_alike (Double.mul_zero fa (beq_zero_of_isZero zr hr))
  | oneMul zl zr one =>
    obtain rfl := eq_one_of_isOne one hl
    exact ⟨b, hr, .inl (Double.one_mul b)⟩
  | mulOne zl zr one one' =>
    obtain rfl := eq_one_of_isOne one' hr
    exact ⟨a, hl, .inl (Double.mul_one a)⟩
  | zeroDiv zl => exact zero_evalIn_alike (Double.zero_div (beq_zero_of_isZero zl hl) fb hop)
  | divOne zl one =>
    obtain rfl := eq_one_of_isOne one hr
    exact ⟨a, hl, .inl (Double.div_one a)⟩

theorem FiniteIn.isFinite {e : Expr} {v : Float} (h : e.FiniteIn L ρ)
    (value : e.evalIn L.arithmetic ρ = .ok v) : v.isFinite := by
  obtain ⟨w, hw, finite⟩ := h
  cases value.symm.trans hw
  exact finite

/-- The rebuilt operands of a node that keeps its minus are zero together. -/
theorem isZero_of_not_losesMinus {op : BinOp} {l r l' r' : Expr}
    (h : ¬ (binary op l r).LosesMinus) (hl : l.simplify = .ok l') (hr : r.simplify = .ok r') :
    op = .sub → l'.isZero → r'.isZero := by
  rintro rfl zero
  have vanishes : r.Vanishes := Classical.byContradiction fun kept =>
    h (losesMinus_sub.2 ⟨⟨l', hl, zero⟩, kept⟩)
  obtain ⟨r'', hr'', zero'⟩ := vanishes
  cases hr.symm.trans hr''
  exact zero'

/-- The values of an expression and of what it simplifies to are alike. -/
theorem simplify_evalIn_alike (hL : L.Respectful) {e s : Expr} {v : Float}
    (finite : e.Everywhere (FiniteIn L ρ)) (minus : e.Everywhere fun t => ¬ t.LosesMinus)
    (value : e.evalIn L.arithmetic ρ = .ok v) (h : e.simplify = .ok s) :
    ∃ w, s.evalIn L.arithmetic ρ = .ok w ∧ Alike v w := by
  have fv := finite.self.isFinite value
  induction e generalizing s v with
  | const c =>
    cases h
    exact ⟨v, value, .refl v⟩
  | var x =>
    cases h
    exact ⟨v, value, .refl v⟩
  | binary op l r ihl ihr =>
    obtain ⟨-, finiteL, finiteR⟩ := everywhere_binary.1 finite
    obtain ⟨kept, minusL, minusR⟩ := everywhere_binary.1 minus
    obtain ⟨a, b, ha, hb, hop, rfl⟩ := evalIn_binary_eq_ok_iff.1 value
    obtain ⟨l', r', hl, hr, -, step⟩ := simplify_binary_eq_ok_iff.1 h
    have fa := finiteL.self.isFinite ha
    have fb := finiteR.self.isFinite hb
    obtain ⟨a', ha', alikeA⟩ := ihl finiteL minusL ha hl fa
    obtain ⟨b', hb', alikeB⟩ := ihr finiteR minusR hb hr fb
    -- The node of the simplified operands has an alike value, whether it is reduced or not.
    have rebuilt := hL.apply alikeA alikeB fa fb hop fv
    have hop' := Library.defined_of_alike alikeA alikeB hop
    rcases step with ⟨rule, reduction⟩ | ⟨-, rfl⟩
    · obtain ⟨w, hw, alike⟩ := reduces_evalIn reduction (isZero_of_not_losesMinus kept hl hr) ha' hb'
        (alikeA.isFinite fa) (alikeB.isFinite fb) hop'
      exact ⟨w, hw, rebuilt.trans alike⟩
    · exact ⟨_, evalIn_binary_eq_ok_iff.2 ⟨a', b', ha', hb', hop', rfl⟩, rebuilt⟩
  | call f operand ih =>
    obtain ⟨-, finiteA⟩ := everywhere_call.1 finite
    obtain ⟨-, minusA⟩ := everywhere_call.1 minus
    obtain ⟨a, ha, hf, rfl⟩ := evalIn_call_eq_ok_iff.1 value
    obtain ⟨operand', hs, rfl⟩ := simplify_call_eq_ok_iff.1 h
    have fa := finiteA.self.isFinite ha
    obtain ⟨a', ha', alike⟩ := ih finiteA minusA ha hs fa
    have hf' := Library.defined_call_of_alike alike hf
    exact ⟨_, evalIn_call_eq_ok_iff.2 ⟨a', ha', hf', rfl⟩, hL.apply_call alike fa fv⟩

/-- **Simplification keeps values.** Where every subexpression has a finite value and no minus
sign is lost, what an expression simplifies to has a value, and the two compare equal. -/
theorem simplify_keeps_value (L : Library) (hL : L.Respectful) (store : Store) (e s : Expr)
    (finite : e.Everywhere (FiniteIn L store.value))
    (minus : e.Everywhere fun t => ¬ t.LosesMinus) (h : e.simplify = .ok s) :
    ∃ v w, e.evalIn L.arithmetic store.value = .ok v ∧
      s.evalIn L.arithmetic store.value = .ok w ∧ (w == v) = true := by
  obtain ⟨v, hv, fv⟩ := finite.self
  obtain ⟨w, hw, alike⟩ := simplify_evalIn_alike hL finite minus hv h
  exact ⟨v, w, hv, hw, beq_of_alike alike.symm (alike.isFinite fv)⟩

/-- Signs of zeros change here, and that of the value with them: `0` before and `-0` after. -/
theorem simplify_keeps_value_of_zeros :
    let x := var ⟨"x", 0⟩
    let y := var ⟨"y", 1⟩
    let e := call .sin (x * zero) * x ^ (y / one) -
      ((zero - const ⟨"-0", -0.0⟩) / y + call .ln y)
    let s := call .sin zero * x ^ y - call .ln y
    let store : Store := ⟨#[-2.0, 1.0]⟩
    Library.plainest.Respectful ∧ e.Everywhere (FiniteIn .plainest store.value) ∧
      e.Everywhere (fun t => ¬ t.LosesMinus) ∧ e.simplify = .ok s ∧
      ∃ v w, e.evalIn Library.plainest.arithmetic store.value = .ok v ∧
        s.evalIn Library.plainest.arithmetic store.value = .ok w ∧ (w == v) = true := by
  intro x y e s store
  have finite : e.Everywhere (FiniteIn .plainest store.value) := by decide
  have minus : e.Everywhere fun t => ¬ t.LosesMinus := by decide
  have simplified : e.simplify = .ok s := rfl
  exact ⟨Library.plainest_respectful, finite, minus, simplified,
    simplify_keeps_value .plainest Library.plainest_respectful store e s finite minus simplified⟩

end Expr

end Calculus

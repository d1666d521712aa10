import Calculus.Proofs.Double.Packing

/-!
# Identities of doubles

Doubles compare equal when they are the same or both zero; nothing else is identified, and only
what is not a number differs from itself (`beq_iff`). So comparing equal is being `Alike`, the same
up to the sign of zero, for all numbers. The operations respect it, quotients by zero apart, and
the laws of zero hold up to it; the laws of one hold exactly, for infinities and what is not a
number as well.
-/

namespace Calculus.Double

open Float.Model Float.Model.UnpackedFloat

/-- The same double, up to the sign of zero. -/
def Alike (x y : Float) : Prop :=
  x = y ∨ (x == 0.0) = true ∧ (y == 0.0) = true

section Comparison

variable {x y : Float}

theorem beq_eq (x y : Float) : (x == y) = (UnpackedFloat.compare (parts x) (parts y) == some .eq) :=
  rfl

theorem isFinite_eq (x : Float) : x.isFinite = UnpackedFloat.isFinite (parts x) := rfl

/-- What compares equal to zero is a zero of either sign. -/
theorem beq_zero_iff : (x == 0.0) = true ↔ ∃ s, parts x = .zero s := by
  rw [beq_eq, parts_zero]
  cases h : parts x with
  | notANumber => simp [UnpackedFloat.compare]
  | infinity s => cases s <;> simp [UnpackedFloat.compare]
  | zero s => simp [UnpackedFloat.compare]
  | finite s m e hm => cases s <;> simp [UnpackedFloat.compare]

theorem Alike.refl (x : Float) : Alike x x :=
  .inl rfl

theorem eq_of_compare_finite {m n : Nat} {e k : Int}
    (h : (compare e k).then (compare m n) = .eq) : m = n ∧ e = k := by
  obtain ⟨he, hm⟩ := Ordering.then_eq_eq.1 h
  exact ⟨Nat.compare_eq_eq.1 hm, Int.compare_eq_eq.1 he⟩

/-- Parts that compare equal are the same, or both zero. -/
theorem eq_or_zero_of_compare {f g : UnpackedFloat}
    (h : UnpackedFloat.compare f g = some .eq) :
    (f = g ∧ f.isNaN = false) ∨ (∃ s, f = .zero s) ∧ ∃ t, g = .zero t := by
  cases f with
  | notANumber => cases h
  | infinity s =>
    cases g with
    | infinity t => cases s <;> cases t <;> first | exact .inl ⟨rfl, rfl⟩ | cases h
    | notANumber | zero | finite => cases s <;> cases h
  | zero s =>
    cases g with
    | zero t => exact .inr ⟨⟨s, rfl⟩, t, rfl⟩
    | infinity t => cases t <;> cases h
    | finite t => cases t <;> cases h
    | notANumber => cases h
  | finite s m e hm =>
    cases g with
    | finite t n k hn =>
      cases s <;> cases t <;> simp only [UnpackedFloat.compare, Option.some.injEq] at h
      · obtain ⟨rfl, rfl⟩ := eq_of_compare_finite (Ordering.swap_eq_eq.1 h)
        exact .inl ⟨rfl, rfl⟩
      · cases h
      · cases h
      · obtain ⟨rfl, rfl⟩ := eq_of_compare_finite h
        exact .inl ⟨rfl, rfl⟩
    | infinity t => cases s <;> cases t <;> cases h
    | zero t => cases s <;> cases h
    | notANumber => cases s <;> cases h

theorem compare_self {f : UnpackedFloat} (h : f.isNaN = false) :
    UnpackedFloat.compare f f = some .eq := by
  cases f with
  | notANumber => cases h
  | infinity s => cases s <;> rfl
  | zero s => rfl
  | finite s m e hm => cases s <;> simp [UnpackedFloat.compare]

/-- Doubles compare equal when they are alike, and numbers. -/
theorem beq_iff : (x == y) = true ↔ Alike x y ∧ x.isNaN = false := by
  constructor
  · intro h
    rw [beq_eq, beq_iff_eq] at h
    rcases eq_or_zero_of_compare h with ⟨same, number⟩ | ⟨⟨s, hx⟩, hy⟩
    · exact ⟨.inl (eq_of_parts_eq same), number⟩
    · refine ⟨.inr ⟨beq_zero_iff.2 ⟨s, hx⟩, beq_zero_iff.2 hy⟩, ?_⟩
      show (parts x).isNaN = false
      rw [hx]
      rfl
  · rintro ⟨rfl | ⟨hx, hy⟩, number⟩
    · rw [beq_eq, beq_iff_eq]
      exact compare_self number
    · obtain ⟨s, hs⟩ := beq_zero_iff.1 hx
      obtain ⟨t, ht⟩ := beq_zero_iff.1 hy
      rw [beq_eq, hs, ht]
      rfl

end Comparison

/-- The same parts, up to the sign of zero. -/
def AlikeParts (f g : UnpackedFloat) : Prop :=
  f = g ∨ (∃ s, f = .zero s) ∧ ∃ t, g = .zero t

theorem AlikeParts.zero (s t : Sign) : AlikeParts (.zero s) (.zero t) :=
  .inr ⟨⟨s, rfl⟩, t, rfl⟩

theorem AlikeParts.symm {f g : UnpackedFloat} (h : AlikeParts f g) : AlikeParts g f := by
  rcases h with rfl | ⟨hf, hg⟩
  · exact .inl rfl
  · exact .inr ⟨hg, hf⟩

theorem AlikeParts.trans {f g h : UnpackedFloat} (hfg : AlikeParts f g) (hgh : AlikeParts g h) :
    AlikeParts f h := by
  rcases hfg with rfl | ⟨hf, hg⟩
  · exact hgh
  · rcases hgh with rfl | ⟨-, hh⟩
    · exact .inr ⟨hf, hg⟩
    · exact .inr ⟨hf, hh⟩

theorem alike_iff {x y : Float} : Alike x y ↔ AlikeParts (parts x) (parts y) := by
  unfold Alike AlikeParts
  rw [beq_zero_iff, beq_zero_iff]
  constructor
  · rintro (rfl | h)
    · exact .inl rfl
    · exact .inr h
  · rintro (h | h)
    · exact .inl (eq_of_parts_eq h)
    · exact .inr h

theorem Alike.symm {x y : Float} (h : Alike x y) : Alike y x :=
  alike_iff.2 (alike_iff.1 h).symm

theorem Alike.trans {x y z : Float} (h : Alike x y) (h' : Alike y z) : Alike x z :=
  alike_iff.2 ((alike_iff.1 h).trans (alike_iff.1 h'))

theorem alike_ofParts {f g : UnpackedFloat} (h : AlikeParts f g) :
    Alike (ofParts f) (ofParts g) := by
  rcases h with rfl | ⟨⟨s, rfl⟩, t, rfl⟩
  · exact .refl _
  · refine .inr ⟨beq_zero_iff.2 ⟨s, parts_ofParts_zero s⟩, beq_zero_iff.2 ⟨t, parts_ofParts_zero t⟩⟩

section Parts

variable {spec : Format} {f g : UnpackedFloat} {s t : Sign}

theorem add_zero_parts (f : UnpackedFloat) (t : Sign) :
    AlikeParts (UnpackedFloat.add spec f (.zero t)) f := by
  cases f with
  | zero s => cases s <;> cases t <;> exact .zero _ _
  | notANumber | infinity | finite => exact .inl rfl

theorem zero_add_parts (s : Sign) (g : UnpackedFloat) :
    AlikeParts (UnpackedFloat.add spec (.zero s) g) g := by
  cases g with
  | zero t => cases s <;> cases t <;> exact .zero _ _
  | notANumber | infinity | finite => exact .inl rfl

theorem sub_zero_parts (f : UnpackedFloat) (t : Sign) :
    AlikeParts (UnpackedFloat.sub spec f (.zero t)) f := by
  cases f with
  | zero s => cases s <;> cases t <;> exact .zero _ _
  | notANumber | infinity | finite => exact .inl rfl

theorem zero_sub_parts (s t : Sign) (g : UnpackedFloat) :
    AlikeParts (UnpackedFloat.sub spec (.zero s) g) (UnpackedFloat.sub spec (.zero t) g) := by
  cases g with
  | zero u => cases s <;> cases t <;> cases u <;> exact .zero _ _
  | notANumber | infinity | finite => exact .inl rfl

theorem mul_zero_parts (f : UnpackedFloat) (s t : Sign) :
    AlikeParts (UnpackedFloat.mul spec f (.zero s)) (UnpackedFloat.mul spec f (.zero t)) := by
  cases f with
  | zero | finite => exact .zero _ _
  | notANumber | infinity => exact .inl rfl

theorem mul_comm_parts (f g : UnpackedFloat) :
    UnpackedFloat.mul spec f g = UnpackedFloat.mul spec g f := by
  have signs (s t : Sign) : s * t = t * s := by cases s <;> cases t <;> rfl
  cases f <;> cases g <;>
    simp only [UnpackedFloat.mul, signs, Nat.mul_comm, Int.add_comm]

theorem zero_div_parts (s t : Sign) (g : UnpackedFloat) :
    AlikeParts (UnpackedFloat.div spec (.zero s) g) (UnpackedFloat.div spec (.zero t) g) := by
  cases g with
  | infinity | finite => exact .zero _ _
  | notANumber | zero => exact .inl rfl

/-- Multiplying by one rounds a mantissa that was widened by zero bits. -/
theorem mul_one_parts {x : Float} :
    UnpackedFloat.mul .binary64 (parts x) (parts 1.0) = parts x := by
  rw [parts_one]
  cases h : parts x with
  | notANumber => rfl
  | infinity s => cases s <;> rfl
  | zero s => cases s <;> rfl
  | finite s m e hm =>
    have sign : s * .positive = s := by cases s <;> rfl
    have round := roundWithAccuracy_widened (canonical_of_parts h) s 52
    have exponent : e + -52 = e - (52 : Nat) := by omega
    simpa only [UnpackedFloat.mul, sign, exponent] using round

/-- The quotient by one is the mantissa, widened by at most one bit. -/
theorem divCore_one {m : Nat} {e : Int} (h : Canonical m e) :
    ∃ k : Nat, divCore .binary64 m e (2 ^ 52) (-52) = (m * 2 ^ k, e - k, .exact) := by
  have target (t : Int) : Format.binary64.targetExponent t = max (t - 53) (-1074) := rfl
  have total : totalExponent (2 ^ 52) (-52) = 1 := by decide
  have canonical := h.normalized.targetExponent
  rw [target] at canonical
  -- The exponent asked for is that of `m`, or one less if that is possible.
  obtain ⟨k, hk⟩ : ∃ k : Nat, min (e - -52)
      (Format.binary64.targetExponent (totalExponent m e - totalExponent (2 ^ 52) (-52))) = e - k := by
    rw [target, total]
    by_cases low : totalExponent m e - 53 ≤ -1074
    · exact ⟨0, by omega⟩
    · exact ⟨1, by omega⟩
  refine ⟨k, ?_⟩
  have shift : (e - -52 - (e - k)).toNat = k + 52 := by omega
  have wide : m <<< (k + 52) = m * 2 ^ k * 2 ^ 52 := by
    rw [Nat.shiftLeft_eq, Nat.pow_add, Nat.mul_assoc]
  simp only [divCore, hk, shift, wide, accuracyOfFraction,
    Nat.mul_div_cancel _ (Nat.two_pow_pos 52), Nat.mul_mod_left, if_true]

theorem div_one_parts {x : Float} :
    UnpackedFloat.div .binary64 (parts x) (parts 1.0) = parts x := by
  rw [parts_one]
  cases h : parts x with
  | notANumber => rfl
  | infinity s => cases s <;> rfl
  | zero s => cases s <;> rfl
  | finite s m e hm =>
    have sign : s / .positive = s := by cases s <;> rfl
    obtain ⟨k, core⟩ := divCore_one (canonical_of_parts h)
    simp only [UnpackedFloat.div, core, sign]
    exact roundWithAccuracy_widened (canonical_of_parts h) s k

end Parts

section Operations

variable {x x' y y' : Float}

/-- An operation that does not tell the zeros apart on the left respects alike left operands. -/
theorem alike_left {op : UnpackedFloat → UnpackedFloat → UnpackedFloat}
    (hop : ∀ s t g, AlikeParts (op (.zero s) g) (op (.zero t) g)) (h : Alike x x') (y : Float) :
    Alike (ofParts (op (parts x) (parts y))) (ofParts (op (parts x') (parts y))) := by
  apply alike_ofParts
  rcases alike_iff.1 h with hx | ⟨⟨s, hs⟩, t, ht⟩
  · rw [hx]
    exact .inl rfl
  · rw [hs, ht]
    exact hop s t _

/-- An operation that does not tell the zeros apart on the right respects alike right operands. -/
theorem alike_right {op : UnpackedFloat → UnpackedFloat → UnpackedFloat}
    (hop : ∀ f s t, AlikeParts (op f (.zero s)) (op f (.zero t))) (x : Float) (h : Alike y y') :
    Alike (ofParts (op (parts x) (parts y))) (ofParts (op (parts x) (parts y'))) := by
  apply alike_ofParts
  rcases alike_iff.1 h with hy | ⟨⟨s, hs⟩, t, ht⟩
  · rw [hy]
    exact .inl rfl
  · rw [hs, ht]
    exact hop _ s t

theorem Alike.add (hx : Alike x x') (hy : Alike y y') : Alike (x + y) (x' + y') :=
  (alike_left (fun s t g => (zero_add_parts s g).trans (zero_add_parts t g).symm) hx y).trans
    (alike_right (fun f s t => (add_zero_parts f s).trans (add_zero_parts f t).symm) x' hy)

theorem Alike.sub (hx : Alike x x') (hy : Alike y y') : Alike (x - y) (x' - y') :=
  (alike_left zero_sub_parts hx y).trans
    (alike_right (fun f s t => (sub_zero_parts f s).trans (sub_zero_parts f t).symm) x' hy)

theorem mul_comm (x y : Float) : x * y = y * x :=
  congrArg ofParts (mul_comm_parts (parts x) (parts y))

theorem Alike.mul (hx : Alike x x') (hy : Alike y y') : Alike (x * y) (x' * y') := by
  have left : Alike (x * y) (x' * y) := by
    rw [mul_comm x y, mul_comm x' y]
    exact alike_right mul_zero_parts y hx
  exact left.trans (alike_right mul_zero_parts x' hy)

/-- Quotients tell the zeros apart in the denominator, and only there. -/
theorem Alike.div (hx : Alike x x') (hy : Alike y y') (nonzero : (y == 0.0) = false) :
    Alike (x / y) (x' / y') := by
  rcases hy with rfl | ⟨zero, -⟩
  · exact alike_left zero_div_parts hx y
  · rw [zero] at nonzero
    cases nonzero

/-- What has the parts of a double up to the sign of zero is alike. -/
theorem alike_of_parts {f : UnpackedFloat} (h : AlikeParts f (parts x)) :
    Alike (ofParts f) x := by
  have alike := alike_ofParts h
  rwa [ofParts_parts] at alike

theorem add_zero (x : Float) (hy : (y == 0.0) = true) : Alike (x + y) x := by
  obtain ⟨t, ht⟩ := beq_zero_iff.1 hy
  apply alike_of_parts (f := UnpackedFloat.add .binary64 (parts x) (parts y))
  rw [ht]
  exact add_zero_parts (parts x) t

theorem zero_add (hx : (x == 0.0) = true) (y : Float) : Alike (x + y) y := by
  obtain ⟨s, hs⟩ := beq_zero_iff.1 hx
  apply alike_of_parts (f := UnpackedFloat.add .binary64 (parts x) (parts y))
  rw [hs]
  exact zero_add_parts s (parts y)

theorem sub_zero (x : Float) (hy : (y == 0.0) = true) : Alike (x - y) x := by
  obtain ⟨t, ht⟩ := beq_zero_iff.1 hy
  apply alike_of_parts (f := UnpackedFloat.sub .binary64 (parts x) (parts y))
  rw [ht]
  exact sub_zero_parts (parts x) t

@[simp] theorem mul_one (x : Float) : x * 1.0 = x := by
  show ofParts (UnpackedFloat.mul .binary64 (parts x) (parts 1.0)) = x
  rw [mul_one_parts, ofParts_parts]

@[simp] theorem one_mul (x : Float) : 1.0 * x = x := by
  rw [mul_comm, mul_one]

@[simp] theorem div_one (x : Float) : x / 1.0 = x := by
  show ofParts (UnpackedFloat.div .binary64 (parts x) (parts 1.0)) = x
  rw [div_one_parts, ofParts_parts]

theorem eq_one_of_beq (h : (x == 1.0) = true) : x = 1.0 := by
  rcases (beq_iff.1 h).1 with rfl | ⟨-, zero⟩
  · rfl
  · exact absurd zero (by decide)

theorem beq_zero_ofParts (s : Sign) : (ofParts (.zero s) == 0.0) = true :=
  beq_zero_iff.2 ⟨s, parts_ofParts_zero s⟩

/-- A finite double times zero is zero. -/
theorem mul_zero (hx : x.isFinite) (hy : (y == 0.0) = true) : (x * y == 0.0) = true := by
  obtain ⟨t, ht⟩ := beq_zero_iff.1 hy
  show (ofParts (UnpackedFloat.mul .binary64 (parts x) (parts y)) == 0.0) = true
  rw [isFinite_eq] at hx
  rw [ht]
  cases h : parts x with
  | zero s => exact beq_zero_ofParts _
  | finite s m e hm => exact beq_zero_ofParts _
  | notANumber | infinity => rw [h] at hx; cases hx

theorem zero_mul (hx : (x == 0.0) = true) (hy : y.isFinite) : (x * y == 0.0) = true := by
  rw [mul_comm]
  exact mul_zero hy hx

/-- Zero divided by a finite double other than zero is zero. -/
theorem zero_div (hx : (x == 0.0) = true) (hy : y.isFinite) (nonzero : (y == 0.0) = false) :
    (x / y == 0.0) = true := by
  obtain ⟨s, hs⟩ := beq_zero_iff.1 hx
  show (ofParts (UnpackedFloat.div .binary64 (parts x) (parts y)) == 0.0) = true
  rw [isFinite_eq] at hy
  rw [hs]
  cases h : parts y with
  | zero t => rw [beq_zero_iff.2 ⟨t, h⟩] at nonzero; cases nonzero
  | finite t m e hm => exact beq_zero_ofParts _
  | notANumber | infinity => rw [h] at hy; cases hy

/-- No zero is positive. -/
theorem le_zero_of_beq (h : (x == 0.0) = true) : x ≤ 0.0 := by
  obtain ⟨s, hs⟩ := beq_zero_iff.1 h
  have le : UnpackedFloat.le (parts x) (parts 0.0) = true := by
    rw [hs]
    rfl
  exact decide_eq_true le

theorem isFinite_of_beq_zero (h : (x == 0.0) = true) : x.isFinite = true := by
  obtain ⟨s, hs⟩ := beq_zero_iff.1 h
  rw [isFinite_eq, hs]
  rfl

theorem isNaN_of_isFinite (h : x.isFinite) : x.isNaN = false := by
  rw [isFinite_eq] at h
  show (parts x).isNaN = false
  cases hx : parts x with
  | notANumber => rw [hx] at h; cases h
  | infinity | zero | finite => rfl

/-- What is not finite is infinite or not a number. -/
theorem isInf_or_isNaN (h : x.isFinite = false) : x.isInf = true ∨ x.isNaN = true := by
  rw [isFinite_eq] at h
  show (parts x).isInf = true ∨ (parts x).isNaN = true
  cases hx : parts x with
  | notANumber => exact .inr rfl
  | infinity s => exact .inl rfl
  | zero s => rw [hx] at h; cases h
  | finite s m e hm => rw [hx] at h; cases h

/-- Finite doubles compare equal when they are alike. -/
theorem beq_of_alike (h : Alike x y) (hx : x.isFinite) : (x == y) = true :=
  beq_iff.2 ⟨h, isNaN_of_isFinite hx⟩

theorem Alike.isFinite (h : Alike x y) (hx : x.isFinite) : y.isFinite := by
  rcases h with rfl | ⟨-, hy⟩
  · exact hx
  · exact isFinite_of_beq_zero hy

/-- Alike doubles are both zero or neither. -/
theorem Alike.beq_zero (h : Alike x y) : (x == 0.0) = (y == 0.0) := by
  rcases h with rfl | ⟨hx, hy⟩
  · rfl
  · rw [hx, hy]

/-- Alike doubles are both in the domain of the logarithm or neither. -/
theorem Alike.le_zero (h : Alike x y) : decide (x ≤ 0.0) = decide (y ≤ 0.0) := by
  rcases h with rfl | ⟨hx, hy⟩
  · rfl
  · rw [decide_eq_true (le_zero_of_beq hx), decide_eq_true (le_zero_of_beq hy)]

end Operations

end Calculus.Double

import Calculus.Proofs.Double.Order

/-!
# Rounding

The exact result of an operation is a mantissa of any width. Rounding shifts it right until it fits,
keeping in two residual bits where the number lies between the mantissa that is left and the next
one (`Holds`), and then goes to the nearer of the two, or to the even one. If that makes the mantissa
too wide, by one bit, it is shifted again, and nothing is lost because the bit is zero.

The result is the one double, with an exponent that may still be too large, to which the exact number
belongs (`roundWithAccuracy_belongsTo`). The same is said for signed results of any exponent
(`roundsTo_normalize`) and, with the double it is packed into, in `RoundsTo`.
-/

namespace Calculus.Double

open Float.Model Float.Model.UnpackedFloat

section ResidualBits

/-- The number lies between a mantissa and the next one where the residual bits say. -/
def Holds : ExtendedMantissa → ℚ → Prop
  | ⟨m, false, false⟩, v => v = m
  | ⟨m, false, true⟩, v => m < v ∧ v < m + 1 / 2
  | ⟨m, true, false⟩, v => v = m + 1 / 2
  | ⟨m, true, true⟩, v => m + 1 / 2 < v ∧ v < m + 1

variable {em : ExtendedMantissa} {v : ℚ}

/-- The last bit of the mantissa becomes the round bit, and a number whose residual bits are not both
zero was not an exact multiple. -/
theorem Holds.shiftRightOne (h : Holds em v) : Holds em.shiftRightOne (v / 2) := by
  obtain ⟨m, round, sticky⟩ := em
  obtain ⟨half, even | odd⟩ : ∃ half, m = 2 * half ∨ m = 2 * half + 1 := ⟨m / 2, by omega⟩
  · have shifted : ExtendedMantissa.shiftRightOne ⟨m, round, sticky⟩ =
        ⟨half, false, round || sticky⟩ := by
      rw [ExtendedMantissa.shiftRightOne, even, Nat.mul_div_cancel_left half two_pos,
        Nat.mul_mod_right]
      rfl
    have units : (m : ℚ) = 2 * half := by rw [even]; push_cast; rfl
    rw [shifted]
    cases round <;> cases sticky <;> simp only [Holds, units, Bool.or_false, Bool.or_true] at h ⊢
    · linarith
    all_goals constructor <;> linarith
  · have shifted : ExtendedMantissa.shiftRightOne ⟨m, round, sticky⟩ =
        ⟨half, true, round || sticky⟩ := by
      rw [ExtendedMantissa.shiftRightOne, odd, Nat.mul_add_div two_pos, Nat.mul_add_mod]
      rfl
    have units : (m : ℚ) = 2 * half + 1 := by rw [odd]; push_cast; rfl
    rw [shifted]
    cases round <;> cases sticky <;> simp only [Holds, units, Bool.or_false, Bool.or_true] at h ⊢
    · linarith
    all_goals constructor <;> linarith

theorem Holds.shiftRight (h : Holds em v) (k : ℕ) : Holds (em >>> k) (v / 2 ^ k) := by
  induction k with
  | zero =>
    have unshifted : em >>> 0 = em := rfl
    simpa [unshifted] using h
  | succ k ih =>
    rw [pow_succ, ← div_div]
    exact ih.shiftRightOne

/-- The integer is nearest to the number; if it is odd, the number is not halfway. -/
structure IsNearest (r : ℕ) (v : ℚ) : Prop where
  low : r - 1 / 2 ≤ v
  high : v ≤ r + 1 / 2
  odd : r % 2 = 1 → r - 1 / 2 < v ∧ v < r + 1 / 2

theorem Holds.isNearest (h : Holds em v) : IsNearest em.roundedMantissa v := by
  obtain ⟨m, round, sticky⟩ := em
  cases round <;> cases sticky <;> simp only [Holds] at h <;>
    simp only [ExtendedMantissa.roundedMantissa, ExtendedMantissa.accuracy,
      Accuracy.roundToNearestEven]
  · refine ⟨by linarith, by linarith, fun _ => ⟨by linarith, by linarith⟩⟩
  · refine ⟨by linarith, by linarith, fun _ => ⟨by linarith, by linarith⟩⟩
  · -- Halfway, an odd mantissa goes up and an even one stays; the result is even.
    rcases Nat.mod_two_eq_zero_or_one m with even | odd
    · rw [even, Nat.add_zero]
      exact ⟨by linarith, by linarith, by omega⟩
    · rw [odd]
      refine ⟨?_, ?_, by omega⟩ <;> push_cast <;> linarith
  · refine ⟨?_, ?_, fun _ => ⟨?_, ?_⟩⟩ <;> push_cast <;> linarith

end ResidualBits

section Exponents

variable {m : ℕ} {e : ℤ}

/-- An exact mantissa is shifted by as many bits as its exponent is too small. -/
theorem shiftToTargetExponent_eq {k : ℕ}
    (h : Format.binary64.targetExponent (totalExponent m e) = e + k) :
    shiftToTargetExponent .binary64 m e .exact =
      ((⟨m, false, false⟩ : ExtendedMantissa) >>> k, e + k) := by
  have distance : (e + k - e).toNat = k := by omega
  simp only [shiftToTargetExponent, shiftToExponent, h, distance,
    ExtendedMantissa.ofMantissaAndAccuracy]

/-- Normalized parts are not shifted. -/
theorem Normalized.shiftToTargetExponent (h : Normalized m e) :
    UnpackedFloat.shiftToTargetExponent .binary64 m e .exact = (⟨m, false, false⟩, e) := by
  have unshifted : (⟨m, false, false⟩ : ExtendedMantissa) >>> 0 = ⟨m, false, false⟩ := rfl
  rw [shiftToTargetExponent_eq (k := 0) (by simpa using h.targetExponent), unshifted]
  simp

/-- A mantissa that has become one bit too wide loses that bit again. -/
theorem shiftToTargetExponent_carry (h : -1074 ≤ e) :
    UnpackedFloat.shiftToTargetExponent .binary64 (2 ^ 53) e .exact =
      (⟨2 ^ 52, false, false⟩, e + 1) := by
  have log : (2 ^ 53 : ℕ).log2 = 53 := by decide
  have target : Format.binary64.targetExponent (totalExponent (2 ^ 53) e) = e + (1 : ℕ) := by
    rw [targetExponent_eq, log]
    omega
  rw [shiftToTargetExponent_eq target]
  rfl

/-- After the first shift the number has as many units as a mantissa has. -/
theorem units_bounds (hm : 0 < m) {k : ℕ}
    (h : Format.binary64.targetExponent (totalExponent m e) = e + k) :
    (m : ℚ) / 2 ^ k < 2 ^ 53 ∧ (-1074 < e + k → 2 ^ 52 ≤ (m : ℚ) / 2 ^ k) := by
  rw [targetExponent_eq] at h
  constructor
  · rw [div_lt_iff₀ (by positivity), ← pow_add]
    have : m < 2 ^ (53 + k) := (Nat.log2_lt (by omega)).1 (by omega)
    exact_mod_cast this
  · intro normal
    rw [le_div_iff₀ (by positivity), ← pow_add]
    have : 2 ^ (52 + k) ≤ m := (Nat.le_log2 (by omega)).1 (by omega)
    exact_mod_cast this

end Exponents

section Results

variable {m : ℕ} {e : ℤ} {v : ℚ}

/-- To belong to a double, with the number counted in quarters of the gap above it. -/
theorem belongsTo_of_quarters {r : ℕ} {q : ℤ} (low : (4 * r - halfGapBelow r q : ℕ) ≤ v)
    (high : v ≤ (4 * r + 2 : ℕ))
    (odd : r % 2 = 1 → (4 * r - halfGapBelow r q : ℕ) < v ∧ v < (4 * r + 2 : ℕ)) :
    BelongsTo r q (v * 2 ^ (q - 2)) := by
  have unit : (0 : ℚ) < 2 ^ (q - 2) := by positivity
  refine ⟨by gcongr, by gcongr, fun h => ?_⟩
  obtain ⟨below, above⟩ := odd h
  exact ⟨by gcongr, by gcongr⟩

/-- The nearest integer, with an exponent, is the double to which the number belongs. -/
theorem IsNearest.belongsTo {r : ℕ} {q : ℤ} (h : IsNearest r v) (nonneg : 0 ≤ v)
    (normal : -1074 < q → 2 ^ 52 ≤ v) : BelongsTo r q (v * 2 ^ q) := by
  have quarters : v * 2 ^ q = 4 * v * 2 ^ (q - 2) := by
    rw [zpow_sub₀ (by norm_num : (2 : ℚ) ≠ 0)]
    ring
  have low := h.low
  have high := h.high
  rw [quarters]
  apply belongsTo_of_quarters
  · unfold halfGapBelow
    split
    · next start =>
      -- The gap below the start of a binade is narrower, but nothing in it is rounded up.
      have := normal start.2
      rw [start.1]
      norm_num [Numeral.binadeStart]
      linarith
    · rcases Nat.eq_zero_or_pos r with rfl | pos
      · simpa using nonneg
      · rw [Nat.cast_sub (by omega)]
        push_cast
        linarith
  · push_cast
    linarith
  · intro odd
    obtain ⟨below, above⟩ := h.odd odd
    have inside : halfGapBelow r q = 2 := if_neg fun start => by
      have := start.1
      simp only [Numeral.binadeStart] at this
      omega
    rw [inside, Nat.cast_sub (by omega)]
    push_cast
    exact ⟨by linarith, by linarith⟩

/-- What is rounded up out of a binade belongs to the start of the next one. -/
theorem IsNearest.belongsTo_carry {q : ℤ} (h : IsNearest (2 ^ 53) v) (upper : v < 2 ^ 53) :
    BelongsTo (2 ^ 52) (q + 1) (v * 2 ^ q) := by
  have quarters : v * 2 ^ q = 2 * v * 2 ^ (q + 1 - 2) := by
    rw [show q + 1 - 2 = q - 1 by ring, zpow_sub₀ (by norm_num : (2 : ℚ) ≠ 0)]
    ring
  have low := h.low
  rw [quarters]
  apply belongsTo_of_quarters
  · have gap := halfGapBelow_pos (2 ^ 52) (q + 1)
    calc ((4 * 2 ^ 52 - halfGapBelow (2 ^ 52) (q + 1) : ℕ) : ℚ)
        ≤ (2 ^ 54 - 1 : ℕ) := Nat.cast_le.2 (by omega)
      _ ≤ 2 * v := by norm_num at low ⊢; linarith
  · norm_num
    linarith
  · intro odd
    exact absurd odd (by decide)

/-- An exact number is rounded to the double to which it belongs. -/
theorem roundWithAccuracy_belongsTo (s : Sign) (hm : 0 < m)
    (he : e ≤ Format.binary64.targetExponent (totalExponent m e)) :
    ∃ n q, roundWithAccuracy .binary64 s m e .exact = ofMagnitude s n q ∧ Normalized n q ∧
      BelongsTo n q (m * 2 ^ e) := by
  obtain ⟨k, hk⟩ := Int.le.dest he
  have first := shiftToTargetExponent_eq hk.symm
  have low : -1074 ≤ e + k := by
    have := targetExponent_eq m e
    omega
  obtain ⟨upper, lower⟩ := units_bounds hm hk.symm
  have holds : Holds ⟨m, false, false⟩ m := rfl
  have nearest := (holds.shiftRight k).isNearest
  have units : (m : ℚ) * 2 ^ e = m / 2 ^ k * 2 ^ (e + k) := by
    rw [zpow_add₀ (by norm_num : (2 : ℚ) ≠ 0), zpow_natCast]
    field_simp
  generalize (⟨m, false, false⟩ : ExtendedMantissa) >>> k = em at first nearest
  rw [units]
  have wide : em.roundedMantissa ≤ 2 ^ 53 := by
    have : (em.roundedMantissa : ℚ) < 2 ^ 53 + 1 := by linarith [nearest.low]
    exact Nat.lt_succ_iff.1 (by exact_mod_cast this)
  rcases wide.lt_or_eq with fits | carry
  · have normalized : Normalized em.roundedMantissa (e + k) := by
      refine ⟨fits, low, ?_⟩
      rcases low.lt_or_eq with normal | least
      · have : (2 ^ 52 : ℚ) < em.roundedMantissa + 1 := by linarith [nearest.high, lower normal]
        exact .inl (Nat.lt_succ_iff.1 (by exact_mod_cast this))
      · exact .inr least.symm
    refine ⟨em.roundedMantissa, e + k, ?_, normalized, nearest.belongsTo (by positivity) lower⟩
    simp only [roundWithAccuracy, first, normalized.shiftToTargetExponent]
    rfl
  · refine ⟨2 ^ 52, e + k + 1, ?_, ⟨by decide, by omega, .inl le_rfl⟩, ?_⟩
    · simp only [roundWithAccuracy, first, carry, shiftToTargetExponent_carry low]
      rfl
    · rw [carry] at nearest
      exact nearest.belongsTo_carry upper

/-- A number whose exponent is too large is widened first, by zero bits. -/
theorem round_belongsTo (s : Sign) (hm : 0 < m) (e : ℤ) :
    ∃ n q, UnpackedFloat.round .binary64 s m e = ofMagnitude s n q ∧ Normalized n q ∧
      BelongsTo n q (m * 2 ^ e) := by
  generalize hk : (e - Format.binary64.targetExponent (totalExponent m e)).toNat = k
  have widened : UnpackedFloat.round .binary64 s m e =
      roundWithAccuracy .binary64 s (m * 2 ^ k) (e - k) .exact := by
    simp only [UnpackedFloat.round, decreaseExponent, hk, Nat.shiftLeft_eq]
  have fits : e - k ≤ Format.binary64.targetExponent (totalExponent (m * 2 ^ k) (e - k)) := by
    rw [totalExponent_widened hm]
    omega
  have same : (m : ℚ) * 2 ^ e = (m * 2 ^ k : ℕ) * 2 ^ (e - k) := by
    rw [zpow_sub₀ (by norm_num : (2 : ℚ) ≠ 0), zpow_natCast]
    push_cast
    field_simp
  rw [widened, same]
  exact roundWithAccuracy_belongsTo s (Nat.mul_pos hm (Nat.two_pow_pos k)) fits

/-- The parts are those of the double to which the number belongs, its sign apart; their exponent
may be too large for a double. -/
def RoundsTo (v : ℚ) (f : UnpackedFloat) : Prop :=
  ∃ s m q, f = ofMagnitude s m q ∧ Normalized m q ∧ BelongsTo m q (withSign s v)

theorem roundsTo_zero (s : Sign) : RoundsTo 0 (.zero s) := by
  refine ⟨s, 0, -1074, rfl, normalized_zero, ?_⟩
  cases s <;> simpa [withSign] using belongsTo_zero

/-- What is a double already is not changed. -/
theorem roundsTo_self {s : Sign} {hm : 0 < m} (h : Canonical m e) :
    RoundsTo (value (.finite s m e hm)) (.finite s m e hm) := by
  refine ⟨s, m, e, (ofMagnitude_of_pos s hm e).symm, h.normalized, ?_⟩
  have magnitude : withSign s (value (.finite s m e hm)) = m * 2 ^ e := by
    cases s <;> simp [value, withSign]
  rw [magnitude]
  exact belongsTo_self hm e

theorem roundsTo_normalize (n e : ℤ) (zeroSign : Sign) :
    RoundsTo (n * 2 ^ e) (UnpackedFloat.normalize .binary64 n e zeroSign) := by
  unfold UnpackedFloat.normalize
  split
  · next negative =>
    rw [compare_lt_iff_lt] at negative
    obtain ⟨m, q, rounded, normalized, belongs⟩ :=
      round_belongsTo .negative (m := (-n).toNat) (by omega) e
    refine ⟨.negative, m, q, rounded, normalized, ?_⟩
    have magnitude : (((-n).toNat : ℕ) : ℚ) = -n := by
      exact_mod_cast Int.toNat_of_nonneg (by omega : 0 ≤ -n)
    simpa [withSign, magnitude] using belongs
  · next zero =>
    rw [compare_eq_iff_eq] at zero
    simpa [zero] using roundsTo_zero zeroSign
  · next positive =>
    rw [compare_gt_iff_gt] at positive
    obtain ⟨m, q, rounded, normalized, belongs⟩ :=
      round_belongsTo .positive (m := n.toNat) (by omega) e
    refine ⟨.positive, m, q, rounded, normalized, ?_⟩
    have magnitude : ((n.toNat : ℕ) : ℚ) = n := by
      exact_mod_cast Int.toNat_of_nonneg (by omega : 0 ≤ n)
    simpa [withSign, magnitude] using belongs

end Results

end Calculus.Double

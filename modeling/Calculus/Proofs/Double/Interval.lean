import Calculus.Numeral.Binary
import Calculus.Proofs.Double.Packing

/-!
# The numbers that belong to a double

Around every double lies an interval of numbers that are nearer to it than to its neighbours, up to
half a gap to each side; a number in the middle of a gap belongs to the even mantissa
(`BelongsTo`). Zero takes part with the mantissa zero. Exponents are not bounded above here: what is
rounded may turn out to be too large for a double.

The intervals follow each other in the order of the doubles (`BelongsTo.ordinal_le`). Those of
neighbours touch at the middle of their gap, but one of the two mantissas is odd, and an odd one
does not own its ends. At a binade start the gap below is the narrower one of the binade below,
whose last mantissa is odd. So a number belongs to one double only, and a larger number to no
smaller double.
-/

namespace Calculus.Double

open Numeral

theorem normalized_zero : Normalized 0 (-1074) :=
  ⟨by decide, le_refl _, .inr rfl⟩

/-- The place of `m · 2 ^ q` when the doubles are counted upwards from zero. -/
def ordinal (m : ℕ) (q : ℤ) : ℤ :=
  (q + 1074) * 2 ^ 52 + m

theorem Normalized.ordinal_nonneg {m : ℕ} {q : ℤ} (h : Normalized m q) : 0 ≤ ordinal m q := by
  have low := h.low
  unfold ordinal
  omega

/-- Doubles are counted by their exponents first, and then by their mantissas. -/
theorem Normalized.ordinal_lt {m m' : ℕ} {q q' : ℤ} (h : Normalized m q) (h' : Normalized m' q')
    (less : q < q' ∨ q = q' ∧ m < m') : ordinal m q < ordinal m' q' := by
  have lt := h.lt
  have low := h.low
  unfold ordinal
  rcases less with lower | ⟨rfl, smaller⟩
  · have normal : 2 ^ 52 ≤ m' := h'.normal.resolve_right (by omega)
    omega
  · omega

/-- Half the gap below `m · 2 ^ q`, in quarters of the gap above it. -/
def halfGapBelow (m : ℕ) (q : ℤ) : ℕ :=
  if m = binadeStart ∧ leastExponent < q then 1 else 2

/-- The number lies at most half a gap away from `m · 2 ^ q`, and less than that if `m` is odd. -/
structure BelongsTo (m : ℕ) (q : ℤ) (v : ℚ) : Prop where
  low : (4 * m - halfGapBelow m q : ℕ) * 2 ^ (q - 2) ≤ v
  high : v ≤ (4 * m + 2 : ℕ) * 2 ^ (q - 2)
  odd : m % 2 = 1 →
    (4 * m - halfGapBelow m q : ℕ) * 2 ^ (q - 2) < v ∧ v < (4 * m + 2 : ℕ) * 2 ^ (q - 2)

theorem halfGapBelow_le_two (m : ℕ) (q : ℤ) : halfGapBelow m q ≤ 2 := by
  unfold halfGapBelow
  split <;> omega

theorem halfGapBelow_pos (m : ℕ) (q : ℤ) : 0 < halfGapBelow m q := by
  unfold halfGapBelow
  split <;> omega

variable {m m' : ℕ} {q q' : ℤ} {v w : ℚ}

/-- Only positive numbers belong to a positive double. -/
theorem BelongsTo.pos (h : BelongsTo m q v) (hm : 0 < m) : 0 < v := by
  have gap := halfGapBelow_le_two m q
  have end_pos : (0 : ℚ) < (4 * m - halfGapBelow m q : ℕ) * 2 ^ (q - 2) := by
    have : 0 < 4 * m - halfGapBelow m q := by omega
    positivity
  exact end_pos.trans_le h.low

theorem BelongsTo.nonneg (h : BelongsTo m q v) : 0 ≤ v :=
  le_trans (by positivity) h.low

theorem quarter_eq (m : ℕ) (q : ℤ) : (m : ℚ) * 2 ^ q = (4 * m : ℕ) * 2 ^ (q - 2) := by
  rw [zpow_sub₀ (by norm_num : (2 : ℚ) ≠ 0)]
  push_cast
  ring

/-- A double belongs to itself. -/
theorem belongsTo_self (hm : 0 < m) (q : ℤ) : BelongsTo m q (m * 2 ^ q) := by
  have below : (4 * m - halfGapBelow m q : ℕ) * (2 : ℚ) ^ (q - 2) < (4 * m : ℕ) * 2 ^ (q - 2) := by
    have gap := halfGapBelow_pos m q
    gcongr
    omega
  have above : (4 * m : ℕ) * (2 : ℚ) ^ (q - 2) < (4 * m + 2 : ℕ) * 2 ^ (q - 2) := by
    gcongr
    omega
  rw [quarter_eq]
  exact ⟨below.le, above.le, fun _ => ⟨below, above⟩⟩

theorem belongsTo_zero : BelongsTo 0 (-1074) 0 := by
  refine ⟨?_, ?_, fun odd => absurd odd (by decide)⟩
  · simp
  · positivity

/-- In one binade the intervals follow each other. -/
theorem BelongsTo.le_mantissa (h : BelongsTo m q v) (h' : BelongsTo m' q w) (le : w ≤ v) :
    m' ≤ m := by
  by_contra larger
  have gap := halfGapBelow_le_two m' q
  have ends : 4 * m + 2 ≤ 4 * m' - halfGapBelow m' q := by omega
  have touching : (4 * m + 2 : ℕ) * (2 : ℚ) ^ (q - 2) ≤
      (4 * m' - halfGapBelow m' q : ℕ) * 2 ^ (q - 2) := by
    gcongr
  -- Intervals that touch belong to neighbours, and one of them is odd.
  rcases Nat.mod_two_eq_zero_or_one m with even | odd
  · rcases Nat.mod_two_eq_zero_or_one m' with even' | odd'
    · have apart : (4 * m + 2 : ℕ) * (2 : ℚ) ^ (q - 2) <
          (4 * m' - halfGapBelow m' q : ℕ) * 2 ^ (q - 2) := by
        gcongr
        omega
      exact absurd ((h'.low.trans le).trans h.high) (not_le.2 apart)
    · exact absurd (((h'.odd odd').1.trans_le le).trans_le h.high) (not_lt.2 touching)
  · exact absurd ((h'.low.trans le).trans_lt (h.odd odd).2) (not_lt.2 touching)

/-- Nothing of a binade belongs to a higher one. -/
theorem BelongsTo.le_exponent (h : BelongsTo m q v) (h' : BelongsTo m' q' w)
    (normalized : Normalized m q) (normalized' : Normalized m' q') (le : w ≤ v) : q' ≤ q := by
  by_contra higher
  have low := normalized.low
  have lt := normalized.lt
  have least : leastExponent = -1074 := rfl
  have start : binadeStart = 2 ^ 52 := rfl
  have normal : 2 ^ 52 ≤ m' := normalized'.normal.resolve_right (by omega)
  have above : 2 ^ 54 - 1 ≤ 4 * m' - halfGapBelow m' q' := by
    unfold halfGapBelow
    split
    · omega
    · next inside =>
      have : m' ≠ binadeStart := fun atStart => inside ⟨atStart, by omega⟩
      omega
  have twice : 2 * (2 : ℚ) ^ (q - 2) ≤ 2 ^ (q' - 2) := by
    rw [← zpow_one_add₀ (by norm_num : (2 : ℚ) ≠ 0)]
    exact zpow_le_zpow_right₀ (by norm_num) (by omega)
  have reach : (2 ^ 55 - 2 : ℕ) * (2 : ℚ) ^ (q - 2) ≤ v := by
    calc ((2 ^ 55 - 2 : ℕ) : ℚ) * 2 ^ (q - 2)
        = (2 ^ 54 - 1 : ℕ) * (2 * 2 ^ (q - 2)) := by norm_num; ring
      _ ≤ (4 * m' - halfGapBelow m' q' : ℕ) * 2 ^ (q' - 2) := by gcongr
      _ ≤ w := h'.low
      _ ≤ v := le
  -- The last mantissa of the lower binade is odd, so its interval stops short of the end.
  by_cases last : m = 2 ^ 53 - 1
  · have short := (h.odd (by omega)).2
    rw [show 4 * m + 2 = 2 ^ 55 - 2 by omega] at short
    exact absurd reach (not_le.2 short)
  · have short : v < (2 ^ 55 - 2 : ℕ) * (2 : ℚ) ^ (q - 2) := by
      refine h.high.trans_lt ?_
      gcongr
      omega
    exact absurd reach (not_le.2 short)

/-- A larger number belongs to no smaller double. -/
theorem BelongsTo.ordinal_le (h : BelongsTo m q v) (h' : BelongsTo m' q' w)
    (normalized : Normalized m q) (normalized' : Normalized m' q') (le : v ≤ w) :
    ordinal m q ≤ ordinal m' q' := by
  have exponent := h'.le_exponent h normalized' normalized le
  rcases exponent.lt_or_eq with lower | rfl
  · exact (normalized.ordinal_lt normalized' (.inl lower)).le
  · have mantissa := h'.le_mantissa h le
    unfold ordinal
    omega

/-- A number belongs to one double at most. -/
theorem eq_of_belongsTo (normalized : Normalized m q) (normalized' : Normalized m' q')
    (h : BelongsTo m q v) (h' : BelongsTo m' q' v) : m = m' ∧ q = q' := by
  obtain rfl : q = q' := le_antisymm (h'.le_exponent h normalized' normalized le_rfl)
    (h.le_exponent h' normalized normalized' le_rfl)
  exact ⟨le_antisymm (h'.le_mantissa h le_rfl) (h.le_mantissa h' le_rfl), rfl⟩

end Calculus.Double

import Calculus.Numeral.Shortest
import Calculus.Proofs.Double.Interval

/-!
# The window of a double on a decimal grid

The shortest decimal of a double is searched in a window of a decimal grid. Gaps between doubles
and points of the grid are measured by a common unit, so that a window is found by exact divisions;
it holds points of the double's own interval only (`belongsTo_of_mem_window`). Whichever point the
search finds therefore belongs to the double it was searched for (`belongsTo_shortest`).
-/

namespace Calculus.Numeral

open Double

/-- The number a decimal stands for. -/
def Decimal.toRat (d : Decimal) : ℚ :=
  d.digits * 10 ^ d.exponent

section Window

/-- How many units a quarter of a gap takes, when gaps and grid are measured in one unit. -/
def unitsPerQuarter (q k : ℤ) : ℕ :=
  2 ^ (q - 2).toNat * 10 ^ (-k).toNat

/-- How many units lie between two points of the grid, in the same measure. -/
def unitsPerPoint (q k : ℤ) : ℕ :=
  2 ^ (2 - q).toNat * 10 ^ k.toNat

/-- The unit by which gaps and grid are measured. -/
def commonUnit (q k : ℤ) : ℚ :=
  10 ^ k / unitsPerPoint q k

theorem unitsPerPoint_pos (q k : ℤ) : 0 < unitsPerPoint q k := by
  unfold unitsPerPoint
  positivity

theorem unitsPerQuarter_pos (q k : ℤ) : 0 < unitsPerQuarter q k := by
  unfold unitsPerQuarter
  positivity

theorem commonUnit_pos (q k : ℤ) : 0 < commonUnit q k := by
  have down := unitsPerPoint_pos q k
  unfold commonUnit
  positivity

theorem zpow_mul_pow_toNat {b : ℚ} (hb : b ≠ 0) (n : ℤ) : b ^ n * b ^ (-n).toNat = b ^ n.toNat := by
  rw [← zpow_natCast, ← zpow_natCast, ← zpow_add₀ hb]
  congr 1
  omega

/-- A point of the grid in units. -/
theorem point_eq (q k : ℤ) (x : ℕ) :
    (x : ℚ) * 10 ^ k = (x * unitsPerPoint q k : ℕ) * commonUnit q k := by
  have down : (unitsPerPoint q k : ℚ) ≠ 0 := by exact_mod_cast (unitsPerPoint_pos q k).ne'
  rw [commonUnit, Nat.cast_mul]
  field_simp

/-- A number of quarters in units. -/
theorem quarters_eq (q k : ℤ) (n : ℕ) :
    (n : ℚ) * 2 ^ (q - 2) = (n * unitsPerQuarter q k : ℕ) * commonUnit q k := by
  have two := zpow_mul_pow_toNat (by norm_num : (2 : ℚ) ≠ 0) (q - 2)
  have ten := zpow_mul_pow_toNat (by norm_num : (10 : ℚ) ≠ 0) k
  rw [neg_sub] at two
  have same : (unitsPerQuarter q k : ℚ) * 10 ^ k = 2 ^ (q - 2) * unitsPerPoint q k := by
    simp only [unitsPerQuarter, unitsPerPoint, Nat.cast_mul, Nat.cast_pow, Nat.cast_ofNat]
    rw [← two, ← ten]
    ring
  have down : (unitsPerPoint q k : ℚ) ≠ 0 := by exact_mod_cast (unitsPerPoint_pos q k).ne'
  rw [commonUnit, Nat.cast_mul, mul_assoc, ← mul_div_assoc, same, mul_div_cancel_right₀ _ down]

theorem quarters_lt_point_iff (q k : ℤ) (n x : ℕ) :
    (n : ℚ) * 2 ^ (q - 2) < x * 10 ^ k ↔ n * unitsPerQuarter q k < x * unitsPerPoint q k := by
  rw [quarters_eq q k, point_eq q, mul_lt_mul_iff_left₀ (commonUnit_pos q k), Nat.cast_lt]

theorem point_lt_quarters_iff (q k : ℤ) (n x : ℕ) :
    (x : ℚ) * 10 ^ k < n * 2 ^ (q - 2) ↔ x * unitsPerPoint q k < n * unitsPerQuarter q k := by
  rw [quarters_eq q k, point_eq q, mul_lt_mul_iff_left₀ (commonUnit_pos q k), Nat.cast_lt]

variable {m : ℕ} {q k : ℤ}

theorem window_even (even : m % 2 = 0) :
    Window.around m q k =
      { low := ((4 * m - halfGapBelow m q) * unitsPerQuarter q k + unitsPerPoint q k - 1) /
          unitsPerPoint q k
        value := 4 * m * unitsPerQuarter q k / unitsPerPoint q k
        high := (4 * m + 2) * unitsPerQuarter q k / unitsPerPoint q k } := by
  rw [Window.around]
  simp only [if_pos even]
  rfl

theorem window_odd (odd : m % 2 = 1) :
    Window.around m q k =
      { low := (4 * m - halfGapBelow m q) * unitsPerQuarter q k / unitsPerPoint q k + 1
        value := 4 * m * unitsPerQuarter q k / unitsPerPoint q k
        high := ((4 * m + 2) * unitsPerQuarter q k - 1) / unitsPerPoint q k } := by
  rw [Window.around]
  simp only [if_neg (show ¬ m % 2 = 0 by omega)]
  rfl

/-- The points of a window belong to the double it is around. -/
theorem belongsTo_of_mem_window {x : ℕ} (low : (Window.around m q k).low ≤ x)
    (high : x ≤ (Window.around m q k).high) : BelongsTo m q (x * 10 ^ k) := by
  have down := unitsPerPoint_pos q k
  have up := unitsPerQuarter_pos q k
  rcases Nat.mod_two_eq_zero_or_one m with even | odd
  · rw [window_even even] at low high
    rw [Nat.div_le_iff_le_mul_add_pred down] at low
    rw [Nat.le_div_iff_mul_le down] at high
    refine ⟨not_lt.1 ?_, not_lt.1 ?_, fun odd => by omega⟩
    · rw [point_lt_quarters_iff, mul_comm x]
      omega
    · rw [quarters_lt_point_iff]
      omega
  · rw [window_odd odd] at low high
    rw [Nat.succ_le_iff, Nat.div_lt_iff_lt_mul down] at low
    rw [Nat.le_div_iff_mul_le down] at high
    have above : x * unitsPerPoint q k < (4 * m + 2) * unitsPerQuarter q k := by
      have : 0 < (4 * m + 2) * unitsPerQuarter q k := by positivity
      omega
    have strictly := And.intro ((quarters_lt_point_iff q k _ x).2 low)
      ((point_lt_quarters_iff q k _ x).2 above)
    exact ⟨strictly.1.le, strictly.2.le, fun _ => strictly⟩

/-- The value lies in its window, up to the rounding to the grid. -/
theorem value_mem_window (m : ℕ) (q k : ℤ) :
    (Window.around m q k).low ≤ (Window.around m q k).value + 1 ∧
      (Window.around m q k).value ≤ (Window.around m q k).high := by
  have down := unitsPerPoint_pos q k
  have up := unitsPerQuarter_pos q k
  have left : (4 * m - halfGapBelow m q) * unitsPerQuarter q k ≤ 4 * m * unitsPerQuarter q k :=
    Nat.mul_le_mul_right _ (by omega)
  have right : 4 * m * unitsPerQuarter q k < (4 * m + 2) * unitsPerQuarter q k :=
    Nat.mul_lt_mul_of_pos_right (by omega) up
  rcases Nat.mod_two_eq_zero_or_one m with even | odd
  · rw [window_even even]
    refine ⟨?_, Nat.div_le_div_right (by omega)⟩
    show _ ≤ 4 * m * unitsPerQuarter q k / unitsPerPoint q k + 1
    rw [← Nat.add_div_right _ down]
    exact Nat.div_le_div_right (by omega)
  · rw [window_odd odd]
    exact ⟨Nat.succ_le_succ (Nat.div_le_div_right left), Nat.div_le_div_right (by omega)⟩

end Window

section Search

variable {w : Window} {hit : ℕ}

/-- What is found on one grid lies in the window. -/
theorem Window.nearest?_mem (low : w.low ≤ w.value + 1) (high : w.value ≤ w.high) {unit : ℕ}
    (pos : 0 < unit) (h : w.nearest? unit = some hit) : w.low ≤ hit ∧ hit ≤ w.high := by
  have below : w.value / unit * unit ≤ w.value := Nat.div_mul_le_self _ _
  have above : w.value < w.value / unit * unit + unit := Nat.lt_div_mul_add pos
  simp only [Window.nearest?] at h
  split at h
  · obtain rfl := Option.some.inj h
    omega
  · split at h
    · obtain rfl := Option.some.inj h
      omega
    · cases h

/-- What is found on any grid lies in the window. -/
theorem Window.search?_mem (low : w.low ≤ w.value + 1) (high : w.value ≤ w.high) {n : ℕ}
    (h : w.search? n = some hit) : w.low ≤ hit ∧ hit ≤ w.high := by
  induction n with
  | zero => cases h
  | succ n ih =>
    rw [Window.search?] at h
    split at h
    · next found =>
      obtain rfl := Option.some.inj h
      split at found
      · exact nearest?_mem low high (Nat.pow_pos (by decide)) found
      · cases found
    · exact ih h

/-- Trailing zeros do not count. -/
theorem Decimal.toRat_trim (d : Decimal) : d.trim.toRat = d.toRat := by
  fun_induction Decimal.trim d with
  | case1 d h ih =>
    have digits : (d.digits : ℚ) = (d.digits / 10 : ℕ) * 10 := by
      have : d.digits = d.digits / 10 * 10 := by omega
      exact_mod_cast this
    rw [ih, Decimal.toRat, Decimal.toRat, digits, zpow_add_one₀ (by norm_num)]
    ring
  | case2 d h => rfl

theorem Decimal.toRat_exact (m : ℕ) (q : ℤ) : (Decimal.exact m q).toRat = m * 2 ^ q := by
  cases q with
  | ofNat n => simp [Decimal.exact, Decimal.toRat]
  | negSucc n =>
    have ten : (10 : ℚ) ^ (n + 1) = 5 ^ (n + 1) * 2 ^ (n + 1) := by
      rw [← mul_pow]
      norm_num
    simp only [Decimal.exact, Decimal.toRat, Nat.pow_eq, zpow_negSucc, ten]
    push_cast
    field_simp

/-- The shortest decimal belongs to the double it was searched for. -/
theorem belongsTo_shortest {m : ℕ} (hm : 0 < m) (q : ℤ) :
    BelongsTo m q (shortest m q).toRat := by
  unfold shortest
  simp only
  split
  · next hit found =>
    obtain ⟨low, high⟩ := value_mem_window m q (gridExponent m q)
    obtain ⟨low, high⟩ := Window.search?_mem low high found
    rw [Decimal.toRat_trim]
    exact belongsTo_of_mem_window low high
  · rw [Decimal.toRat_trim, Decimal.toRat_exact]
    exact belongsTo_self hm q

end Search

end Calculus.Numeral

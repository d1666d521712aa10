import Calculus.Proofs.Double.Identities
import Calculus.Proofs.Double.Interval

/-!
# The order of doubles

Doubles are compared by sign, exponent and mantissa, with special rules for zeros and infinities.
All of it is the order of one integer: the place of a double when they are counted from zero, with
its sign (`rank`). Both zeros have rank zero, and the infinities come one place after the largest
finite doubles. What is not a number has no place, and no comparison with it holds (`le_iff`,
`lt_iff`). On finite doubles the order is that of their values (`value_le`).
-/

namespace Calculus.Double

open Float.Model Float.Model.UnpackedFloat

/-- The place of infinity when the doubles are counted upwards from zero. -/
def top : ℤ :=
  2047 * 2 ^ 52

/-- The place of a double on both sides of zero. -/
def rank : UnpackedFloat → ℤ
  | .notANumber => 0
  | .infinity s => s.apply top
  | .zero _ => 0
  | .finite s m q _ => s.apply (ordinal m q)

/-- The number or its negative, by the sign. -/
def withSign : Sign → ℚ → ℚ
  | .negative, v => -v
  | .positive, v => v

theorem withSign_mul (s t : Sign) (v : ℚ) : withSign (s * t) v = withSign s (withSign t v) := by
  cases s <;> cases t
  · exact (neg_neg v).symm
  all_goals rfl

/-- The number that a finite double stands for. -/
def value : UnpackedFloat → ℚ
  | .notANumber => 0
  | .infinity _ => 0
  | .zero _ => 0
  | .finite s m q _ => withSign s (m * 2 ^ q)

/-- Finite doubles come after zero and before infinity. -/
theorem Canonical.ordinal_bounds {m : ℕ} {q : ℤ} (h : Canonical m q) :
    0 < ordinal m q ∧ ordinal m q < top := by
  obtain ⟨pos, lt, low, high, -⟩ := h
  unfold ordinal top
  omega

section Comparison

/-- Comparing exponents and then mantissas is comparing places. -/
theorem compare_ordinal {m m' : ℕ} {q q' : ℤ} (h : Normalized m q) (h' : Normalized m' q') :
    (compare q q').then (compare m m') = compare (ordinal m q) (ordinal m' q') := by
  rcases lt_trichotomy q q' with lower | rfl | higher
  · rw [compare_lt_iff_lt.2 lower, compare_lt_iff_lt.2 (h.ordinal_lt h' (.inl lower))]
    rfl
  · rw [compare_eq_iff_eq.2 rfl, Ordering.eq_then]
    rcases lt_trichotomy m m' with smaller | rfl | larger
    · rw [compare_lt_iff_lt.2 smaller, compare_lt_iff_lt.2 (h.ordinal_lt h' (.inr ⟨rfl, smaller⟩))]
    · rw [compare_eq_iff_eq.2 rfl, compare_eq_iff_eq.2 rfl]
    · rw [compare_gt_iff_gt.2 larger, compare_gt_iff_gt.2 (h'.ordinal_lt h (.inr ⟨rfl, larger⟩))]
  · rw [compare_gt_iff_gt.2 higher, compare_gt_iff_gt.2 (h'.ordinal_lt h (.inl higher))]
    rfl

theorem compare_neg_neg (a b : ℤ) : compare (-a) (-b) = compare b a := by
  simp only [compare, compareOfLessAndEq, neg_lt_neg_iff, neg_inj, eq_comm]

variable {x y : Float}

/-- Numbers compare as their ranks do. -/
theorem compare_parts (hx : x.isNaN = false) (hy : y.isNaN = false) :
    UnpackedFloat.compare (parts x) (parts y) =
      some (compare (rank (parts x)) (rank (parts y))) := by
  replace hx : (parts x).isNaN = false := hx
  replace hy : (parts y).isNaN = false := hy
  have above {a b : ℤ} (h : b < a) : some Ordering.gt = some (compare a b) := by
    rw [compare_gt_iff_gt.2 h]
  have below {a b : ℤ} (h : a < b) : some Ordering.lt = some (compare a b) := by
    rw [compare_lt_iff_lt.2 h]
  have positive : 0 < top := by decide
  cases hf : parts x with
  | notANumber => rw [hf] at hx; cases hx
  | infinity s =>
    cases hg : parts y with
    | notANumber => rw [hg] at hy; cases hy
    | infinity t => cases s <;> cases t <;> rfl
    | zero t => cases s <;> rfl
    | finite t n k hn =>
      have := (canonical_of_parts hg).ordinal_bounds
      cases s <;> cases t <;> simp only [UnpackedFloat.compare, rank, Sign.apply]
      · exact below (by omega)
      · exact below (by omega)
      · exact above (by omega)
      · exact above (by omega)
  | zero s =>
    cases hg : parts y with
    | notANumber => rw [hg] at hy; cases hy
    | infinity t => cases t <;> rfl
    | zero t => rfl
    | finite t n k hn =>
      have := (canonical_of_parts hg).ordinal_bounds
      cases t <;> simp only [UnpackedFloat.compare, rank, Sign.apply]
      · exact above (by omega)
      · exact below (by omega)
  | finite s m q hm =>
    have canonical := canonical_of_parts hf
    have := canonical.ordinal_bounds
    cases hg : parts y with
    | notANumber => rw [hg] at hy; cases hy
    | infinity t =>
      cases s <;> cases t <;> simp only [UnpackedFloat.compare, rank, Sign.apply]
      · exact above (by omega)
      · exact below (by omega)
      · exact above (by omega)
      · exact below (by omega)
    | zero t =>
      cases s <;> simp only [UnpackedFloat.compare, rank, Sign.apply]
      · exact below (by omega)
      · exact above (by omega)
    | finite t n k hn =>
      have canonical' := canonical_of_parts hg
      have := canonical'.ordinal_bounds
      have ordinals := compare_ordinal canonical.normalized canonical'.normalized
      cases s <;> cases t <;> simp only [UnpackedFloat.compare, rank, Sign.apply, ordinals]
      · rw [Int.compare_swap, compare_neg_neg]
      · exact below (by omega)
      · exact above (by omega)

/-- There is a comparison if both are numbers, and then it is the one of their ranks. -/
theorem compare_eq_some_iff {o : Ordering} :
    UnpackedFloat.compare (parts x) (parts y) = some o ↔
      x.isNaN = false ∧ y.isNaN = false ∧ compare (rank (parts x)) (rank (parts y)) = o := by
  constructor
  · intro h
    have numbers : (parts x).isNaN = false ∧ (parts y).isNaN = false := by
      cases hf : parts x with
      | notANumber => rw [hf] at h; cases h
      | infinity | zero | finite =>
        cases hg : parts y with
        | notANumber => rw [hf, hg] at h; cases h
        | infinity | zero | finite => exact ⟨rfl, rfl⟩
    rw [compare_parts numbers.1 numbers.2, Option.some.injEq] at h
    exact ⟨numbers.1, numbers.2, h⟩
  · rintro ⟨hx, hy, h⟩
    rw [compare_parts hx hy, h]

theorem le_iff : x ≤ y ↔
    x.isNaN = false ∧ y.isNaN = false ∧ rank (parts x) ≤ rank (parts y) := by
  have unfolded : x ≤ y ↔ UnpackedFloat.le (parts x) (parts y) = true := decide_eq_true_iff
  rw [unfolded, UnpackedFloat.le, Option.any_eq_true]
  simp only [compare_eq_some_iff]
  constructor
  · rintro ⟨o, ⟨hx, hy, rfl⟩, le⟩
    exact ⟨hx, hy, Int.isLE_compare.1 le⟩
  · rintro ⟨hx, hy, le⟩
    exact ⟨_, ⟨hx, hy, rfl⟩, Int.isLE_compare.2 le⟩

theorem lt_iff : x < y ↔
    x.isNaN = false ∧ y.isNaN = false ∧ rank (parts x) < rank (parts y) := by
  have unfolded : x < y ↔ UnpackedFloat.lt (parts x) (parts y) = true := decide_eq_true_iff
  rw [unfolded, UnpackedFloat.lt, beq_iff_eq, compare_eq_some_iff, compare_lt_iff_lt]

theorem le_of_lt (h : x < y) : x ≤ y := by
  obtain ⟨hx, hy, lt⟩ := lt_iff.1 h
  exact le_iff.2 ⟨hx, hy, lt.le⟩

/-- Numbers are in order one way or the other. -/
theorem lt_of_not_le (hx : x.isNaN = false) (hy : y.isNaN = false) (h : ¬ y ≤ x) : x < y := by
  refine lt_iff.2 ⟨hx, hy, ?_⟩
  by_contra notBelow
  exact h (le_iff.2 ⟨hy, hx, not_lt.1 notBelow⟩)

theorem lt_of_le_of_lt {z : Float} (h : x ≤ y) (h' : y < z) : x < z := by
  obtain ⟨hx, -, le⟩ := le_iff.1 h
  obtain ⟨-, hz, lt⟩ := lt_iff.1 h'
  exact lt_iff.2 ⟨hx, hz, le.trans_lt lt⟩

theorem rank_bounds (x : Float) : -top ≤ rank (parts x) ∧ rank (parts x) ≤ top := by
  have positive : 0 < top := by decide
  cases h : parts x with
  | notANumber | zero => exact ⟨by simp only [rank]; omega, by simp only [rank]; omega⟩
  | infinity s => cases s <;> simp only [rank, Sign.apply] <;> omega
  | finite s m q hm =>
    have := (canonical_of_parts h).ordinal_bounds
    cases s <;> simp only [rank, Sign.apply] <;> omega

/-- A finite double is a zero or canonical. -/
theorem parts_of_isFinite (h : x.isFinite) : (∃ s, parts x = .zero s) ∨
    ∃ s m q, ∃ hm : 0 < m, parts x = .finite s m q hm ∧ Canonical m q := by
  rw [isFinite_eq] at h
  cases hf : parts x with
  | notANumber | infinity => rw [hf] at h; cases h
  | zero s => exact .inl ⟨s, rfl⟩
  | finite s m q hm => exact .inr ⟨s, m, q, hm, rfl, canonical_of_parts hf⟩

/-- Of the numbers, only the infinities are not finite. -/
theorem parts_of_isFinite_eq_false (hx : x.isNaN = false) (h : x.isFinite = false) :
    ∃ s, parts x = .infinity s := by
  replace hx : (parts x).isNaN = false := hx
  rw [isFinite_eq] at h
  cases hf : parts x with
  | notANumber => rw [hf] at hx; cases hx
  | infinity s => exact ⟨s, rfl⟩
  | zero | finite => rw [hf] at h; cases h

/-- What comes strictly between the infinities is finite. -/
theorem isFinite_of_rank (hx : x.isNaN = false) (low : -top < rank (parts x))
    (high : rank (parts x) < top) : x.isFinite := by
  by_contra infinite
  obtain ⟨s, hs⟩ := parts_of_isFinite_eq_false hx (Bool.eq_false_of_not_eq_true infinite)
  rw [hs] at low high
  cases s <;> simp only [rank, Sign.apply] at low high <;> omega

/-- Only the infinities come at the ends. -/
theorem parts_of_rank {s : Sign} (h : rank (parts x) = s.apply top) : parts x = .infinity s := by
  have positive : 0 < top := by decide
  cases hf : parts x with
  | notANumber | zero => cases s <;> simp only [hf, rank, Sign.apply] at h <;> omega
  | infinity t => cases s <;> cases t <;> first | rfl | (rw [hf] at h; cases h)
  | finite t m q hm =>
    have := (canonical_of_parts hf).ordinal_bounds
    cases s <;> cases t <;> simp only [hf, rank, Sign.apply] at h <;> omega

/-- Doubles in order are finite, or the first is infinite below or the second above. -/
theorem finite_or_infinite_of_le (h : x ≤ y) : (x.isFinite ∧ y.isFinite) ∨
    parts x = .infinity .negative ∨ parts y = .infinity .positive := by
  obtain ⟨hx, hy, le⟩ := le_iff.1 h
  rcases (rank_bounds x).1.lt_or_eq with low | bottom
  · rcases (rank_bounds y).2.lt_or_eq with high | last
    · exact .inl ⟨isFinite_of_rank hx low (le.trans_lt high),
        isFinite_of_rank hy (low.trans_le le) high⟩
    · exact .inr (.inr (parts_of_rank last))
  · exact .inr (.inl (parts_of_rank bottom.symm))

end Comparison

section Values

/-- The number with the given sign, mantissa and exponent; a zero if the mantissa is zero. -/
def ofMagnitude (s : Sign) (m : ℕ) (q : ℤ) : UnpackedFloat :=
  if h : m = 0 then .zero s else .finite s m q (Nat.pos_of_ne_zero h)

theorem ofMagnitude_of_pos (s : Sign) {m : ℕ} (hm : 0 < m) (q : ℤ) :
    ofMagnitude s m q = .finite s m q hm :=
  dif_neg (Nat.ne_of_gt hm)

variable {x y : Float}

/-- A finite double is a sign with normalized parts, zeros included. -/
theorem exists_magnitude (h : x.isFinite) :
    ∃ s m q, parts x = ofMagnitude s m q ∧ Normalized m q := by
  rcases parts_of_isFinite h with ⟨s, hs⟩ | ⟨s, m, q, hm, hs, canonical⟩
  · exact ⟨s, 0, -1074, hs, normalized_zero⟩
  · exact ⟨s, m, q, hs.trans (ofMagnitude_of_pos s hm q).symm, canonical.normalized⟩

theorem rank_ofMagnitude (s : Sign) {m : ℕ} {q : ℤ} (h : Normalized m q) :
    rank (ofMagnitude s m q) = s.apply (ordinal m q) := by
  unfold ofMagnitude
  split
  · next zero =>
    obtain rfl : q = -1074 := h.normal.resolve_left (by omega)
    subst zero
    cases s <;> rfl
  · rfl

theorem value_ofMagnitude (s : Sign) (m : ℕ) (q : ℤ) :
    value (ofMagnitude s m q) = withSign s (m * 2 ^ q) := by
  unfold ofMagnitude
  split
  · next zero =>
    subst zero
    cases s <;> simp [value, withSign]
  · rfl

/-- Doubles that come later stand for larger numbers. -/
theorem Normalized.value_le {m m' : ℕ} {q q' : ℤ} (h : Normalized m q) (h' : Normalized m' q')
    (le : ordinal m q ≤ ordinal m' q') : (m : ℚ) * 2 ^ q ≤ m' * 2 ^ q' := by
  have lt := h.lt
  rcases lt_trichotomy q q' with lower | rfl | higher
  · have normal : 2 ^ 52 ≤ m' := h'.normal.resolve_right (by have := h.low; omega)
    calc (m : ℚ) * 2 ^ q
        ≤ (2 * 2 ^ 52 : ℕ) * 2 ^ q := by gcongr; omega
      _ = (2 ^ 52 : ℕ) * 2 ^ (q + 1) := by
        rw [zpow_add_one₀ (by norm_num : (2 : ℚ) ≠ 0)]
        push_cast
        ring
      _ ≤ m' * 2 ^ q' := by
        gcongr
        · norm_num
        · omega
  · have : m ≤ m' := by unfold ordinal at le; omega
    gcongr
  · exact absurd le (not_le.2 (h'.ordinal_lt h (.inl higher)))

/-- Finite doubles are ordered as the numbers they stand for. -/
theorem value_le (hx : x.isFinite) (hy : y.isFinite) (h : x ≤ y) :
    value (parts x) ≤ value (parts y) := by
  obtain ⟨-, -, le⟩ := le_iff.1 h
  obtain ⟨s, m, q, hf, normalized⟩ := exists_magnitude hx
  obtain ⟨t, n, k, hg, normalized'⟩ := exists_magnitude hy
  rw [hf, hg, rank_ofMagnitude s normalized, rank_ofMagnitude t normalized'] at le
  rw [hf, hg, value_ofMagnitude, value_ofMagnitude]
  have nonneg := normalized.ordinal_nonneg
  have nonneg' := normalized'.ordinal_nonneg
  have zero : ordinal 0 (-1074) = 0 := by decide
  cases s <;> cases t <;> simp only [Sign.apply, withSign] at le ⊢
  · exact neg_le_neg (normalized'.value_le normalized (by omega))
  · exact (neg_nonpos.2 (by positivity)).trans (by positivity)
  · -- Only zero comes before a negative double and after a positive one.
    have upper := normalized.value_le normalized_zero (by omega)
    have upper' := normalized'.value_le normalized_zero (by omega)
    simp only [Nat.cast_zero] at upper upper'
    linarith
  · exact normalized.value_le normalized' le

end Values

end Calculus.Double

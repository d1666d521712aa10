import Calculus.Proofs.Double.Rounding

/-!
# Monotone operations

Sums and products of doubles are the exact ones, rounded (`roundsTo_add`, `roundsTo_mul`), and larger
numbers are rounded to larger doubles (`RoundsTo.rank_le`). Packing then cuts off what is beyond the
largest double, which keeps the order (`RoundsTo.le`). So a sum grows with its summand and a product
with a positive factor grows with the other one, whether the results are exact, rounded, absorbed or
infinite; and none of them is lost to what is not a number (`add_le_add`, `mul_le_mul`).
-/

namespace Calculus.Double

open Float.Model Float.Model.UnpackedFloat

section Rounded

variable {m : ℕ} {q : ℤ} {v w : ℚ} {f g : UnpackedFloat}

/-- What is rounded is packed as it is, or as an infinity. -/
theorem parts_ofParts_ofMagnitude (s : Sign) (h : Normalized m q) :
    parts (ofParts (ofMagnitude s m q)) = if q ≤ 971 then ofMagnitude s m q else .infinity s := by
  rcases Nat.eq_zero_or_pos m with rfl | pos
  · obtain rfl : q = -1074 := h.normal.resolve_left (by omega)
    exact parts_ofParts_zero s
  · rw [ofMagnitude_of_pos s pos]
    split
    · next high => exact parts_ofParts ⟨pos, h.lt, h.low, high, h.normal⟩ s
    · next high => exact parts_ofParts_overflow s pos (by omega)

/-- Larger numbers are rounded to what comes later. -/
theorem RoundsTo.rank_le (hf : RoundsTo v f) (hg : RoundsTo w g) (le : v ≤ w) :
    rank f ≤ rank g := by
  obtain ⟨s, m, q, rfl, normalized, belongs⟩ := hf
  obtain ⟨t, n, k, rfl, normalized', belongs'⟩ := hg
  have nonneg := normalized.ordinal_nonneg
  have nonneg' := normalized'.ordinal_nonneg
  have zero : ordinal 0 (-1074) = 0 := by decide
  rw [rank_ofMagnitude s normalized, rank_ofMagnitude t normalized']
  cases s <;> cases t <;> simp only [Sign.apply, withSign] at belongs belongs' ⊢
  · have := belongs'.ordinal_le belongs normalized' normalized (neg_le_neg le)
    omega
  · omega
  · -- A number that is rounded to a positive and to a negative double is zero.
    have upper := belongs.ordinal_le belongsTo_zero normalized normalized_zero
      (le.trans (neg_nonneg.1 belongs'.nonneg))
    have lower := belongs'.ordinal_le belongsTo_zero normalized' normalized_zero
      (neg_nonpos.2 (belongs.nonneg.trans le))
    omega
  · exact belongs.ordinal_le belongs' normalized normalized' le

theorem RoundsTo.isNaN (h : RoundsTo v f) : (ofParts f).isNaN = false := by
  obtain ⟨s, m, q, rfl, normalized, -⟩ := h
  show (parts (ofParts (ofMagnitude s m q))).isNaN = false
  rw [parts_ofParts_ofMagnitude s normalized, ofMagnitude]
  split
  · split <;> rfl
  · rfl

/-- Only the order beyond the infinities is lost in packing. -/
theorem RoundsTo.rank_ofParts (h : RoundsTo v f) :
    rank (parts (ofParts f)) = max (-top) (min (rank f) top) := by
  obtain ⟨s, m, q, rfl, normalized, -⟩ := h
  have infinite : top = 2047 * 2 ^ 52 := rfl
  have lt := normalized.lt
  have low := normalized.low
  have normal := normalized.normal
  rw [parts_ofParts_ofMagnitude s normalized, rank_ofMagnitude s normalized]
  split
  · rw [rank_ofMagnitude s normalized, ordinal]
    cases s <;> simp only [Sign.apply] <;> omega
  · simp only [rank, ordinal]
    cases s <;> simp only [Sign.apply] <;> omega

/-- Larger numbers are rounded to larger doubles. -/
theorem RoundsTo.le (hf : RoundsTo v f) (hg : RoundsTo w g) (le : v ≤ w) :
    ofParts f ≤ ofParts g := by
  refine le_iff.2 ⟨hf.isNaN, hg.isNaN, ?_⟩
  rw [hf.rank_ofParts, hg.rank_ofParts]
  have := hf.rank_le hg le
  omega

end Rounded

section Operations

variable {x y : Float}

/-- The product of two mantissas is wide enough, or its exponent is at the lower end. -/
theorem le_targetExponent_mul {m n : ℕ} {q k : ℤ} (h : Canonical m q) (h' : Canonical n k) :
    q + k ≤ Format.binary64.targetExponent (totalExponent (m * n) (q + k)) := by
  have pos := h.pos
  have pos' := h'.pos
  rw [targetExponent_eq]
  by_cases wide : 2 ^ 52 ≤ m * n
  · have : 52 ≤ (m * n).log2 := (Nat.le_log2 (by positivity)).2 wide
    omega
  · have left : m ≤ m * n := Nat.le_mul_of_pos_right m pos'
    have right : n ≤ m * n := Nat.le_mul_of_pos_left n pos
    have least : q = -1074 := h.normal.resolve_left (by omega)
    have least' : k = -1074 := h'.normal.resolve_left (by omega)
    omega

/-- A product of finite doubles is the exact product, rounded. -/
theorem roundsTo_mul (hx : x.isFinite) (hy : y.isFinite) :
    RoundsTo (value (parts x) * value (parts y)) (UnpackedFloat.mul .binary64 (parts x) (parts y)) := by
  rcases parts_of_isFinite hx with ⟨s, hf⟩ | ⟨s, m, q, hm, hf, canonical⟩
  · have exact_product : value (.zero s) * value (parts y) = 0 := by simp [value]
    rw [hf, exact_product]
    rcases parts_of_isFinite hy with ⟨t, hg⟩ | ⟨t, n, k, hn, hg, -⟩ <;> rw [hg] <;>
      exact roundsTo_zero (s * t)
  · rcases parts_of_isFinite hy with ⟨t, hg⟩ | ⟨t, n, k, hn, hg, canonical'⟩
    · have exact_product : value (.finite s m q hm) * value (.zero t) = 0 := by simp [value]
      rw [hf, hg, exact_product]
      exact roundsTo_zero (s * t)
    · obtain ⟨r, p, rounded, normalized, belongs⟩ := roundWithAccuracy_belongsTo (s * t)
        (Nat.mul_pos hm hn) (le_targetExponent_mul canonical canonical')
      have exact_product : withSign (s * t) (value (.finite s m q hm) * value (.finite t n k hn)) =
          (m * n : ℕ) * 2 ^ (q + k) := by
        rw [zpow_add₀ (by norm_num : (2 : ℚ) ≠ 0), withSign_mul]
        push_cast
        cases s <;> cases t <;> simp only [value, withSign] <;> ring
      rw [hf, hg]
      refine ⟨s * t, r, p, rounded, normalized, ?_⟩
      rw [exact_product]
      exact belongs

/-- Operands of a sum are brought to the smaller exponent without loss. -/
theorem decreaseExponent_value (s : Sign) (m : ℕ) {q p : ℤ} (h : p ≤ q) :
    (s.apply (decreaseExponent m q p).1 : ℤ) * (2 : ℚ) ^ p = withSign s (m * 2 ^ q) := by
  obtain ⟨k, rfl⟩ := Int.le.dest h
  have distance : (p + k - p).toNat = k := by omega
  simp only [decreaseExponent, distance, Nat.shiftLeft_eq]
  rw [zpow_add₀ (by norm_num : (2 : ℚ) ≠ 0), zpow_natCast]
  cases s <;> simp only [Sign.apply, withSign] <;> push_cast <;> ring

/-- A sum of finite doubles is the exact sum, rounded. -/
theorem roundsTo_add (hx : x.isFinite) (hy : y.isFinite) :
    RoundsTo (value (parts x) + value (parts y)) (UnpackedFloat.add .binary64 (parts x) (parts y)) := by
  rcases parts_of_isFinite hx with ⟨s, hf⟩ | ⟨s, m, q, hm, hf, canonical⟩
  · have exact_sum : value (.zero s) + value (parts y) = value (parts y) := by simp [value]
    rw [hf, exact_sum]
    rcases parts_of_isFinite hy with ⟨t, hg⟩ | ⟨t, n, k, hn, hg, canonical'⟩ <;> rw [hg]
    · cases s <;> cases t <;> exact roundsTo_zero _
    · exact roundsTo_self canonical'
  · rcases parts_of_isFinite hy with ⟨t, hg⟩ | ⟨t, n, k, hn, hg, -⟩
    · have exact_sum : value (.finite s m q hm) + value (.zero t) = value (.finite s m q hm) := by
        simp [value]
      rw [hf, hg, exact_sum]
      exact roundsTo_self canonical
    · have exact_sum : value (.finite s m q hm) + value (.finite t n k hn) =
          (s.apply (decreaseExponent m q (min q k)).1 +
            t.apply (decreaseExponent n k (min q k)).1 : ℤ) * 2 ^ min q k := by
        rw [Int.cast_add, add_mul, decreaseExponent_value s m (min_le_left q k),
          decreaseExponent_value t n (min_le_right q k)]
        rfl
      rw [hf, hg, exact_sum]
      exact roundsTo_normalize _ _ _

/-- A product with a factor that is not negative grows with the other one. -/
theorem mul_le_mul {z : Float} (hx : x.isFinite) (hy : y.isFinite) (hz : z.isFinite)
    (nonneg : 0.0 ≤ z) (h : x ≤ y) : x * z ≤ y * z := by
  have factor : value (parts 0.0) ≤ value (parts z) := value_le rfl hz nonneg
  exact (roundsTo_mul hx hz).le (roundsTo_mul hy hz)
    (mul_le_mul_of_nonneg_right (value_le hx hy h) factor)

/-- To add an infinity to a finite double gives the infinity. -/
theorem parts_add_infinity {z : Float} {s : Sign} (hz : z.isFinite) (hx : parts x = .infinity s) :
    parts (z + x) = .infinity s := by
  show parts (ofParts (UnpackedFloat.add .binary64 (parts z) (parts x))) = .infinity s
  rcases parts_of_isFinite hz with ⟨t, hg⟩ | ⟨t, n, k, hn, hg, -⟩ <;> rw [hx, hg] <;>
    exact parts_ofParts_infinity s

theorem isNaN_add {z : Float} (hz : z.isFinite) (hx : x.isNaN = false) : (z + x).isNaN = false := by
  cases finite : x.isFinite with
  | true => exact (roundsTo_add hz finite).isNaN
  | false =>
    obtain ⟨s, infinite⟩ := parts_of_isFinite_eq_false hx finite
    show (parts (z + x)).isNaN = false
    rw [parts_add_infinity hz infinite]
    rfl

/-- A sum with a finite double grows with the other summand, which may be infinite. -/
theorem add_le_add {z : Float} (hz : z.isFinite) (h : x ≤ y) : z + x ≤ z + y := by
  obtain ⟨hx, hy, le⟩ := le_iff.1 h
  rcases finite_or_infinite_of_le h with ⟨finite, finite'⟩ | negative | positive
  · exact (roundsTo_add hz finite).le (roundsTo_add hz finite')
      (add_le_add_right (value_le finite finite' h) _)
  · refine le_iff.2 ⟨isNaN_add hz hx, isNaN_add hz hy, ?_⟩
    rw [parts_add_infinity hz negative]
    exact (rank_bounds (z + y)).1
  · refine le_iff.2 ⟨isNaN_add hz hx, isNaN_add hz hy, ?_⟩
    rw [parts_add_infinity hz positive]
    exact (rank_bounds (z + x)).2

end Operations

section Indices

theorem ofNat_eq {n : ℕ} (h : n < 2 ^ 53) :
    Float.ofNat n = ofParts (UnpackedFloat.normalize .binary64 n 0 .positive) := by
  have one : Float.exactlyRepresentablePowersOfTen[0] = 1.0 := rfl
  have scientific : Float.ofNat n = n.toUInt64.toFloat * 1.0 := by
    show Float.ofScientific n false 0 = _
    rw [Float.ofScientific, dif_pos ⟨h, by omega⟩]
    simp [one]
  have word : n.toUInt64.toNat = n := by
    rw [Nat.toUInt64_eq, UInt64.toNat_ofNat']
    omega
  rw [scientific, mul_one]
  show ofParts (UnpackedFloat.normalize .binary64 n.toUInt64.toNat 0 .positive) = _
  rw [word]

theorem roundsTo_ofNat (n : ℕ) : RoundsTo n (UnpackedFloat.normalize .binary64 n 0 .positive) := by
  simpa using roundsTo_normalize n 0 .positive

/-- Indices are finite doubles: they do not exceed `2 ^ 53`. -/
theorem isFinite_ofNat {n : ℕ} (h : n < 2 ^ 53) : (Float.ofNat n).isFinite := by
  have rounds := roundsTo_ofNat n
  rw [ofNat_eq h]
  generalize UnpackedFloat.normalize .binary64 n 0 .positive = f at rounds ⊢
  have canonical : Canonical (2 ^ 52) 1 := ⟨by decide, by decide, by decide, by decide, .inl le_rfl⟩
  have limit : (n : ℚ) ≤ value (.finite .positive (2 ^ 52) 1 canonical.pos) := by
    have : (n : ℚ) < (2 ^ 53 : ℕ) := by exact_mod_cast h
    norm_num [value, withSign] at this ⊢
    linarith
  have below : 0 ≤ rank f := (roundsTo_zero .positive).rank_le rounds (by positivity)
  have above : rank f ≤ ordinal (2 ^ 52) 1 := rounds.rank_le (roundsTo_self canonical) limit
  have bounds := canonical.ordinal_bounds
  apply isFinite_of_rank rounds.isNaN
  · rw [rounds.rank_ofParts]
    omega
  · rw [rounds.rank_ofParts]
    omega

theorem ofNat_le_ofNat {i j : ℕ} (h : i ≤ j) (hj : j < 2 ^ 53) : Float.ofNat i ≤ Float.ofNat j := by
  rw [ofNat_eq (by omega), ofNat_eq hj]
  exact (roundsTo_ofNat i).le (roundsTo_ofNat j) (by exact_mod_cast h)

end Indices

end Calculus.Double

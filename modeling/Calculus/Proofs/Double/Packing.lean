import Mathlib

/-!
# Doubles and their parts

The logical model of a double is its bits; its operations unpack the bits into a sign, a mantissa
and an exponent, compute exactly, round, and pack the result. Four facts connect the two views.
Packing what was unpacked gives the double back (`ofParts_parts`), so a double is determined by
its parts. The parts of a finite double are canonical (`canonical_of_parts`), and all canonical parts
are those of a double (`parts_ofParts`). And rounding leaves canonical parts alone, also when the
mantissa was widened by zero bits (`roundWithAccuracy_widened`), so products with one and quotients
by one come out as they went in.
-/

namespace Calculus.Double

open Float.Model Float.Model.UnpackedFloat

/-- The parts of a double. -/
def parts (x : Float) : UnpackedFloat :=
  x.toModel.unpack

/-- The double with the given parts. -/
def ofParts (f : UnpackedFloat) : Float :=
  .ofModel (Float.Model.pack f)

/-- The mantissas and exponents that doubles would have if there were no largest one. -/
structure Normalized (m : Nat) (e : Int) : Prop where
  lt : m < 2 ^ 53
  low : -1074 ≤ e
  normal : 2 ^ 52 ≤ m ∨ e = -1074

/-- The mantissas and exponents of finite doubles other than zero. -/
structure Canonical (m : Nat) (e : Int) : Prop where
  pos : 0 < m
  lt : m < 2 ^ 53
  low : -1074 ≤ e
  high : e ≤ 971
  normal : 2 ^ 52 ≤ m ∨ e = -1074

theorem Canonical.normalized {m : Nat} {e : Int} (h : Canonical m e) : Normalized m e :=
  ⟨h.lt, h.low, h.normal⟩

theorem targetExponent_eq (m : Nat) (e : Int) :
    Format.binary64.targetExponent (totalExponent m e) = max (m.log2 + e - 52) (-1074) := by
  have target (t : Int) : Format.binary64.targetExponent t = max (t - 53) (-1074) := rfl
  rw [target, totalExponent]
  omega

/-- A normalized number has the exponent its format asks for, zero included. -/
theorem Normalized.targetExponent {m : Nat} {e : Int} (h : Normalized m e) :
    Format.binary64.targetExponent (totalExponent m e) = e := by
  have low := h.low
  rw [targetExponent_eq]
  rcases Nat.eq_zero_or_pos m with rfl | pos
  · obtain rfl : e = -1074 := h.normal.resolve_left (by omega)
    decide
  · have upper : m.log2 < 53 := (Nat.log2_lt (by omega)).2 h.lt
    rcases h.normal with normal | least
    · have lower : 52 ≤ m.log2 := (Nat.le_log2 (by omega)).2 normal
      omega
    · omega

theorem toBitVec_ofBitVec (v : BitVec 1) : (Sign.ofBitVec v).toBitVec = v := by
  revert v
  decide

section Bits

variable {b : BitVec Format.binary64.numBits}

/-- A word is its sign bit, its exponent bits and its mantissa bits put together. -/
theorem packComponents_unpack (b : BitVec Format.binary64.numBits) :
    packComponents .binary64 (Sign.ofBitVec (unpackSign b)) (unpackExponent b)
      (unpackMantissa b) = b := by
  apply BitVec.eq_of_getLsbD_eq
  intro i hi
  have bound : i < 64 := hi
  simp only [packComponents, toBitVec_ofBitVec, unpackSign, unpackExponent, unpackMantissa,
    BitVec.getLsbD_append, BitVec.getLsbD_cast, BitVec.getLsbD_extractLsb]
  by_cases mantissa : i < 52
  · simp [mantissa]
  · by_cases exponent : i - 52 < 11
    · have index : 52 + (i - 52) = i := by omega
      simp [mantissa, exponent, index]
    · have index : i = 63 := by omega
      simp [index]

theorem ofBitVec_unpackSign (s : Sign) (e : BitVec 11) (m : BitVec 52) :
    Sign.ofBitVec (unpackSign (packComponents .binary64 s e m)) = s := by
  have bit : unpackSign (packComponents .binary64 s e m) = s.toBitVec := by
    apply BitVec.eq_of_getLsbD_eq
    intro i hi
    obtain rfl : i = 0 := by omega
    simp only [unpackSign, packComponents, BitVec.getLsbD_cast, BitVec.getLsbD_extractLsb,
      BitVec.getLsbD_append]
    simp
  rw [bit]
  cases s <;> rfl

theorem toNat_implicit_append (m : BitVec 52) : (1#1 ++ m).toNat = 2 ^ 52 + m.toNat := by
  rw [BitVec.toNat_append, ← Nat.shiftLeft_add_eq_or_of_lt m.isLt]
  rfl

/-- A finite number that is unpacked is canonical. -/
theorem canonical_of_unpack {s : Sign} {m : Nat} {e : Int} {hm : 0 < m}
    (h : unpack .binary64 b = .finite s m e hm) : Canonical m e := by
  have bias : ((Format.binary64.exponentBias : Nat) : Int) = 1023 := rfl
  have mantissa : (unpackMantissa b).toNat < 2 ^ 52 := (unpackMantissa b).isLt
  have exponent : (unpackExponent b).toNat < 2 ^ 11 := (unpackExponent b).isLt
  unfold UnpackedFloat.unpack at h
  simp only [bias] at h
  split at h
  · split at h <;> cases h
  · rename_i notTop
    have below : (unpackExponent b).toNat ≠ 2047 := fun top => notTop (BitVec.eq_of_toNat_eq top)
    split at h
    · rename_i subnormal
      split at h
      · cases h
      · cases h
        rw [subnormal]
        exact ⟨hm, by omega, by simp, by simp, .inr (by simp)⟩
    · rename_i normal
      have above : (unpackExponent b).toNat ≠ 0 := fun bottom =>
        normal (BitVec.eq_of_toNat_eq bottom)
      cases h
      rw [toNat_implicit_append]
      exact ⟨by omega, by omega, by omega, by omega, .inl (by omega)⟩

/-- A mantissa below the implicit bit is packed with exponent zero. -/
theorem pack_subnormal (s : Sign) {m : Nat} (hm : 0 < m) (lt : m < 2 ^ 52) :
    UnpackedFloat.pack .binary64 (.finite s m (-1074) hm) =
      packComponents .binary64 s 0#11 (BitVec.ofNat 52 m) := by
  have log : m.log2 < 52 := (Nat.log2_lt (by omega)).2 lt
  have width : Format.binary64.mantissaBits = 53 := rfl
  have bias : Format.binary64.exponentBias = 1023 := rfl
  simp only [UnpackedFloat.pack, width, bias]
  rw [if_neg (by decide), if_neg (by omega)]

/-- A mantissa with the implicit bit is packed without it, and the exponent in excess. -/
theorem pack_normal (s : Sign) {m : Nat} (hm : 0 < m) (ge : 2 ^ 52 ≤ m) (lt : m < 2 ^ 53) {e : Int}
    (biased : Nat) (he : e = biased - 1075) (low : 0 < biased) (high : biased < 2047) :
    UnpackedFloat.pack .binary64 (.finite s m e hm) =
      packComponents .binary64 s (BitVec.ofNat 11 biased) (BitVec.ofNat 52 m) := by
  have upper : m.log2 < 53 := (Nat.log2_lt (by omega)).2 lt
  have lower : 52 ≤ m.log2 := (Nat.le_log2 (by omega)).2 ge
  have width : Format.binary64.mantissaBits = 53 := rfl
  have bias : Format.binary64.exponentBias = 1023 := rfl
  have exponent : (e + 1023 + 52).toNat = biased := by omega
  simp only [UnpackedFloat.pack, width, bias]
  rw [if_neg (by simp; omega), if_pos (by omega)]
  congr

/-- Packing what was unpacked from the bits of a double gives them back. -/
theorem pack_unpack (hb : Format.binary64.Valid b) :
    UnpackedFloat.pack .binary64 (unpack .binary64 b) = b := by
  have bias : Format.binary64.exponentBias = 1023 := rfl
  have exponent : (unpackExponent b).toNat < 2 ^ 11 := (unpackExponent b).isLt
  have mantissa : (unpackMantissa b).toNat < 2 ^ 52 := (unpackMantissa b).isLt
  have whole := packComponents_unpack b
  unfold UnpackedFloat.unpack
  simp only
  split
  · rename_i top
    split
    · rename_i zero
      rw [top, zero] at whole
      exact whole
    · rename_i nonzero
      exact (hb.eq_packedNaN top nonzero).symm
  · rename_i notTop
    have below : (unpackExponent b).toNat ≠ 2047 := fun top => notTop (BitVec.eq_of_toNat_eq top)
    split
    · rename_i bottom
      split
      · rename_i zero
        rw [bottom, zero] at whole
        exact whole
      · rename_i nonzero
        rw [bottom] at whole
        simp only [bottom]
        exact (pack_subnormal _ _ mantissa).trans (by simpa using whole)
    · rename_i notBottom
      have above : (unpackExponent b).toNat ≠ 0 := fun zero =>
        notBottom (BitVec.eq_of_toNat_eq zero)
      have field : BitVec.ofNat 11 (unpackExponent b).toNat = unpackExponent b :=
        BitVec.eq_of_toNat_eq (Nat.mod_eq_of_lt exponent)
      have fraction : BitVec.ofNat 52 (2 ^ 52 + (unpackMantissa b).toNat) = unpackMantissa b :=
        BitVec.eq_of_toNat_eq (by rw [BitVec.toNat_ofNat]; omega)
      simp only [toNat_implicit_append]
      rw [pack_normal _ _ (by omega) (by omega) (unpackExponent b).toNat (by simp [bias])
        (by omega) (by omega), field, fraction, whole]

end Bits

/-- A double is what its parts are packed into. -/
@[simp] theorem ofParts_parts (x : Float) : ofParts (parts x) = x := by
  obtain ⟨⟨bits, valid⟩⟩ := x
  have packed : UnpackedFloat.pack .binary64 (UnpackedFloat.unpack .binary64 bits.toBitVec) =
      bits.toBitVec := pack_unpack valid
  simp only [ofParts, parts, Float.Model.unpack, Float.Model.pack, packed]

/-- Doubles with the same parts are the same. -/
theorem eq_of_parts_eq {x y : Float} (h : parts x = parts y) : x = y := by
  rw [← ofParts_parts x, h, ofParts_parts]

/-- The parts of a finite double other than zero are canonical. -/
theorem canonical_of_parts {x : Float} {s : Sign} {m : Nat} {e : Int} {hm : 0 < m}
    (h : parts x = .finite s m e hm) : Canonical m e :=
  canonical_of_unpack h

/-- Canonical parts come back when they are packed. -/
theorem parts_ofParts {m : Nat} {e : Int} (h : Canonical m e) (s : Sign) :
    parts (ofParts (.finite s m e h.pos)) = .finite s m e h.pos := by
  show unpack .binary64 (UnpackedFloat.pack .binary64 _) = _
  have bias : ((Format.binary64.exponentBias : Nat) : Int) = 1023 := rfl
  obtain ⟨pos, lt, low, high, normal⟩ := h
  rcases Nat.lt_or_ge m (2 ^ 52) with small | large
  · obtain rfl : e = -1074 := normal.resolve_left (by omega)
    rw [pack_subnormal s pos small]
    have mantissa : (BitVec.ofNat 52 m).toNat = m := Nat.mod_eq_of_lt small
    have nonzero : BitVec.ofNat 52 m ≠ 0#52 := by
      rw [Ne, ← BitVec.toNat_inj, mantissa]
      exact Nat.ne_of_gt pos
    have bottom : (0#11 : BitVec 11) ≠ -1#11 := by decide
    simp only [UnpackedFloat.unpack, unpackMantissa_packComponents, unpackExponent_packComponents,
      ofBitVec_unpackSign, if_neg bottom, dif_neg nonzero, mantissa, bias]
    rfl
  · have biased : e = ((e + 1075).toNat : Int) - 1075 := by omega
    rw [pack_normal s pos large lt _ biased (by omega) (by omega)]
    have field : (BitVec.ofNat 11 (e + 1075).toNat).toNat = (e + 1075).toNat :=
      Nat.mod_eq_of_lt (by omega)
    have notTop : BitVec.ofNat 11 (e + 1075).toNat ≠ -1#11 := by
      rw [Ne, ← BitVec.toNat_inj, field, show (-1#11).toNat = 2047 from rfl]
      omega
    have notBottom : BitVec.ofNat 11 (e + 1075).toNat ≠ 0#11 := by
      rw [Ne, ← BitVec.toNat_inj, field, show (0#11).toNat = 0 from rfl]
      omega
    have mantissa : (1#1 ++ BitVec.ofNat 52 m).toNat = m := by
      rw [toNat_implicit_append, BitVec.toNat_ofNat]
      omega
    simp only [UnpackedFloat.unpack, unpackMantissa_packComponents, unpackExponent_packComponents,
      ofBitVec_unpackSign, if_neg notTop, if_neg notBottom, mantissa, field, bias]
    congr 1
    omega

@[simp] theorem parts_ofParts_zero (s : Sign) : parts (ofParts (.zero s)) = .zero s := by
  cases s <;> rfl

@[simp] theorem parts_ofParts_infinity (s : Sign) :
    parts (ofParts (.infinity s)) = .infinity s := by
  cases s <;> rfl

/-- A finite number with too large an exponent is packed into an infinity. -/
theorem parts_ofParts_overflow (s : Sign) {m : Nat} {e : Int} (hm : 0 < m) (high : 971 < e) :
    parts (ofParts (.finite s m e hm)) = .infinity s := by
  have packed : UnpackedFloat.pack .binary64 (.finite s m e hm) = packedInfinity .binary64 s := by
    have bias : Format.binary64.exponentBias = 1023 := rfl
    simp only [UnpackedFloat.pack, bias]
    rw [if_pos (by omega)]
  show unpack .binary64 (UnpackedFloat.pack .binary64 _) = _
  rw [packed]
  exact parts_ofParts_infinity s

theorem parts_zero : parts 0.0 = .zero .positive := rfl

theorem parts_one : parts 1.0 = .finite .positive (2 ^ 52) (-52) (by decide) := rfl

section Rounding

/-- Shifting out zero bits loses nothing. -/
theorem shiftRight_widened (m k : Nat) :
    (⟨m * 2 ^ k, false, false⟩ : ExtendedMantissa) >>> k = ⟨m, false, false⟩ := by
  induction k generalizing m with
  | zero => simp [HShiftRight.hShiftRight, Nat.repeat]
  | succ k ih =>
    have wide : m * 2 ^ (k + 1) = m * 2 * 2 ^ k := by rw [Nat.pow_succ]; ac_rfl
    have step : (⟨m * 2 ^ (k + 1), false, false⟩ : ExtendedMantissa) >>> (k + 1) =
        ((⟨m * 2 ^ (k + 1), false, false⟩ : ExtendedMantissa) >>> k).shiftRightOne := rfl
    rw [step, wide, ih]
    simp [ExtendedMantissa.shiftRightOne]

/-- The place of the first digit does not depend on zero bits at the end. -/
theorem totalExponent_widened {m : Nat} (hm : 0 < m) (e : Int) (k : Nat) :
    totalExponent (m * 2 ^ k) (e - k) = totalExponent m e := by
  have log : (m * 2 ^ k).log2 = m.log2 + k := by
    have wide : 0 < m * 2 ^ k := Nat.mul_pos hm (Nat.two_pow_pos k)
    rw [Nat.log2_eq_iff (Nat.ne_of_gt wide)]
    constructor
    · rw [Nat.pow_add]
      exact Nat.mul_le_mul_right _ (Nat.log2_self_le (Nat.ne_of_gt hm))
    · rw [show m.log2 + k + 1 = m.log2 + 1 + k by omega, Nat.pow_add]
      exact Nat.mul_lt_mul_of_pos_right Nat.lt_log2_self (Nat.two_pow_pos k)
  rw [totalExponent, totalExponent, log]
  omega

/-- A canonical mantissa widened by zero bits is shifted back to where it was. -/
theorem shiftToTargetExponent_widened {m : Nat} {e : Int} (h : Canonical m e) (k : Nat) :
    shiftToTargetExponent .binary64 (m * 2 ^ k) (e - k) .exact = (⟨m, false, false⟩, e) := by
  have distance : (e - (e - (k : Int))).toNat = k := by omega
  simp only [shiftToTargetExponent, shiftToExponent, totalExponent_widened h.pos,
    h.normalized.targetExponent, distance, ExtendedMantissa.ofMantissaAndAccuracy, shiftRight_widened]
  congr 1
  omega

/-- Rounding takes the zero bits at the end of a canonical mantissa away again. -/
theorem roundWithAccuracy_widened {m : Nat} {e : Int} (h : Canonical m e) (s : Sign) (k : Nat) :
    roundWithAccuracy .binary64 s (m * 2 ^ k) (e - k) .exact = .finite s m e h.pos := by
  have first := shiftToTargetExponent_widened h k
  -- Rounding shifts once more, in case the mantissa has been rounded up; here it has not.
  have second : shiftToTargetExponent .binary64 m e .exact = (⟨m, false, false⟩, e) := by
    simpa using shiftToTargetExponent_widened h 0
  have rounded : (⟨m, false, false⟩ : ExtendedMantissa).roundedMantissa = m := rfl
  have nonzero : ¬ m = 0 := by have := h.pos; omega
  simp only [roundWithAccuracy, first, rounded, second, dif_neg nonzero]

end Rounding

end Calculus.Double

import Calculus.Numeral.Reader
import Calculus.Numeral.Style
import Calculus.Proofs.Numeral.Window

/-!
# A double is known by its text

The text of a double without an exponent can be read as a number: its digits, and a tenth for each
of them after the point (`positionalValue`). What is read is the decimal that was written
(`positionalValue_writePositional`), and that decimal belongs to one double only. The sign in front
and the words for infinity and for what is not a number are told apart from digits by the first
character, so different doubles have different texts (`text_injective`). The zeros are two of them,
and what is not a number is one.
-/

namespace Calculus.Numeral

open Double

section Digits

theorem foldl_digits (ds : List Char) (n : ℕ) :
    ds.foldl (fun n d => 10 * n + (d.toNat - '0'.toNat)) n =
      n * 10 ^ ds.length + digitsValue ds := by
  unfold digitsValue
  induction ds generalizing n with
  | nil => simp
  | cons d ds ih =>
    rw [List.foldl_cons, List.foldl_cons, ih, ih (10 * 0 + _), List.length_cons, pow_succ]
    ring

theorem digitsValue_append (ds es : List Char) :
    digitsValue (ds ++ es) = digitsValue ds * 10 ^ es.length + digitsValue es := by
  rw [digitsValue, List.foldl_append, foldl_digits]
  rfl

theorem digitsValue_singleton (d : Char) : digitsValue [d] = d.toNat - '0'.toNat := by
  rw [digitsValue, List.foldl_cons, List.foldl_nil, Nat.mul_zero, Nat.zero_add]

@[simp] theorem length_zeros (n : ℕ) : (zeros n).length = n :=
  List.length_replicate

@[simp] theorem digitsValue_zeros (n : ℕ) : digitsValue (zeros n) = 0 := by
  induction n with
  | zero => rfl
  | succ n ih =>
    have step : zeros (n + 1) = ['0'] ++ zeros n := rfl
    rw [step, digitsValue_append, ih, digitsValue_singleton, Nat.sub_self, Nat.zero_mul]

theorem digitChar_of_lt {n : ℕ} (h : n < 10) :
    (Nat.digitChar n).isDigit = true ∧ (Nat.digitChar n).toNat - '0'.toNat = n := by
  interval_cases n <;> decide

/-- The digits of a number stand for it. -/
@[simp] theorem digitsValue_digitChars (n : ℕ) : digitsValue (digitChars n) = n := by
  fun_induction digitChars n with
  | case1 n h => rw [digitsValue_singleton, (digitChar_of_lt h).2]
  | case2 n h ih =>
    have last := (digitChar_of_lt (Nat.mod_lt n (by decide : 10 > 0))).2
    rw [digitsValue_append, ih, digitsValue_singleton, last, List.length_singleton]
    omega

theorem isDigit_of_mem_digitChars {n : ℕ} {c : Char} (h : c ∈ digitChars n) : c.isDigit := by
  fun_induction digitChars n with
  | case1 n small =>
    obtain rfl := List.mem_singleton.1 h
    exact (digitChar_of_lt small).1
  | case2 n large ih =>
    rcases List.mem_append.1 h with first | last
    · exact ih first
    · obtain rfl := List.mem_singleton.1 last
      exact (digitChar_of_lt (Nat.mod_lt n (by decide))).1

theorem digitChars_ne_nil (n : ℕ) : digitChars n ≠ [] := by
  rw [digitChars]
  split <;> simp

theorem point_notMem_digitChars (n : ℕ) : '.' ∉ digitChars n :=
  fun h => absurd (isDigit_of_mem_digitChars h) (by decide)

theorem point_notMem_zeros (n : ℕ) : '.' ∉ zeros n :=
  fun h => absurd (List.eq_of_mem_replicate h) (by decide)

end Digits

section Positional

/-- The number that digits with at most one point stand for. -/
def positionalValue (cs : List Char) : ℚ :=
  let whole := cs.takeWhile (· ≠ '.')
  let fraction := (cs.dropWhile (· ≠ '.')).tail
  digitsValue (whole ++ fraction) / 10 ^ fraction.length

theorem positionalValue_of_point {whole fraction : List Char} (h : '.' ∉ whole) :
    positionalValue (whole ++ '.' :: fraction) =
      digitsValue (whole ++ fraction) / 10 ^ fraction.length := by
  have before : ∀ c ∈ whole, decide (c ≠ '.') = true := fun c hc =>
    decide_eq_true fun point => h (point ▸ hc)
  simp only [positionalValue, List.takeWhile_append_of_pos before,
    List.dropWhile_append_of_pos before]
  simp

theorem positionalValue_of_digits {ds : List Char} (h : '.' ∉ ds) :
    positionalValue ds = digitsValue ds := by
  have all : ∀ c ∈ ds, decide (c ≠ '.') = true := fun c hc =>
    decide_eq_true fun point => h (point ▸ hc)
  simp only [positionalValue, List.takeWhile_eq_self_iff.2 all, List.dropWhile_eq_nil_iff.2 all]
  simp

/-- What is written without an exponent is read as the number that was written. -/
theorem positionalValue_writePositional (d : Decimal) :
    positionalValue (Style.plain.writePositional d) = d.toRat := by
  have noPoint := point_notMem_digitChars d.digits
  have tail : Style.plain.integerTail.toList = [] := rfl
  obtain ⟨digits, exponent⟩ := d
  cases exponent with
  | ofNat n =>
    have integer : '.' ∉ digitChars digits ++ zeros n := by
      rw [List.mem_append, not_or]
      exact ⟨noPoint, point_notMem_zeros n⟩
    simp only [Style.writePositional, tail, List.append_nil]
    rw [positionalValue_of_digits integer, digitsValue_append]
    simp [Decimal.toRat]
  | negSucc n =>
    -- There are `n + 1` digits after the point, with the zeros that fill up the places.
    have places : (digits : ℚ) / 10 ^ (n + 1) = Decimal.toRat ⟨digits, .negSucc n⟩ := by
      rw [Decimal.toRat, zpow_negSucc, div_eq_mul_inv]
    simp only [Style.writePositional]
    split
    · next inside =>
      have whole : '.' ∉ (digitChars digits).take ((digitChars digits).length - (n + 1)) :=
        fun h => noPoint (List.mem_of_mem_take h)
      have length : (digitChars digits).length - ((digitChars digits).length - (n + 1)) = n + 1 := by
        omega
      rw [positionalValue_of_point whole, List.take_append_drop, digitsValue_digitChars,
        List.length_drop, length, places]
    · next outside =>
      have length : (zeros (n + 1 - (digitChars digits).length) ++ digitChars digits).length =
          n + 1 := by
        rw [List.length_append, length_zeros]
        omega
      have value : digitsValue
          (['0'] ++ (zeros (n + 1 - (digitChars digits).length) ++ digitChars digits)) = digits := by
        rw [digitsValue_append, digitsValue_append, digitsValue_singleton, digitsValue_zeros,
          digitsValue_digitChars, Nat.sub_self, Nat.zero_mul, Nat.zero_mul, Nat.zero_add,
          Nat.zero_add]
      have point : positionalValue
          (['0'] ++ '.' :: (zeros (n + 1 - (digitChars digits).length) ++ digitChars digits)) = _ :=
        positionalValue_of_point (by decide)
      rw [value, length, places] at point
      exact point

/-- A number that is written without an exponent starts with a digit. -/
theorem head?_writePositional (d : Decimal) :
    ∃ c : Char, c.isDigit ∧ (Style.plain.writePositional d).head? = some c := by
  obtain ⟨c, cs, hcs⟩ := List.exists_cons_of_ne_nil (digitChars_ne_nil d.digits)
  have digit : c.isDigit := isDigit_of_mem_digitChars (hcs ▸ List.mem_cons_self)
  simp only [Style.writePositional, hcs]
  split
  · exact ⟨c, digit, rfl⟩
  · split
    · next inside =>
      obtain ⟨k, hk⟩ := Nat.exists_eq_add_of_lt inside
      refine ⟨c, digit, ?_⟩
      rw [show (c :: cs).length - (_ + 1) = k + 1 by omega]
      rfl
    · exact ⟨'0', by decide, rfl⟩

end Positional

namespace Binary

/-- Whether a minus sign is written. -/
def isNegative : Binary → Bool
  | .nan => false
  | .infinite negative | .finite negative _ _ => negative

/-- What is written after the sign. -/
def body : Binary → List Char
  | .nan => "NaN".toList
  | .infinite _ => "inf".toList
  | .finite _ m q => Style.plain.writePositional (if m = 0 then ⟨0, 0⟩ else shortest m q)

theorem writeBinary_plain (b : Binary) :
    Style.plain.writeBinary b = signed b.isNegative b.body := by
  have plain (d : Decimal) : Style.plain.writeDecimal d = Style.plain.writePositional d := by
    simp [Style.writeDecimal, Style.plain]
  cases b with
  | nan => rfl
  | infinite negative => rfl
  | finite negative m q =>
    cases m with
    | zero => simp [Style.writeBinary, plain, body, isNegative]
    | succ m => simp [Style.writeBinary, plain, body, isNegative]

/-- The body of a finite double starts with a digit. -/
theorem head?_body_finite_ne (negative : Bool) (m : ℕ) (q : ℤ) {c : Char}
    (h : c.isDigit = false) : (finite negative m q).body.head? ≠ some c := by
  intro head
  obtain ⟨d, digit, head'⟩ := head?_writePositional (if m = 0 then ⟨0, 0⟩ else shortest m q)
  obtain rfl : d = c := Option.some.inj (head'.symm.trans head)
  rw [h] at digit
  cases digit

theorem head?_body_ne_minus (b : Binary) : b.body.head? ≠ some '-' := by
  cases b with
  | nan => decide
  | infinite negative => exact (by decide : "inf".toList.head? ≠ some '-')
  | finite negative m q => exact head?_body_finite_ne negative m q (by decide)

/-- A sign is told from what follows it. -/
theorem signed_inj {s t : Bool} {a b : List Char} (ha : a.head? ≠ some '-')
    (hb : b.head? ≠ some '-') (h : signed s a = signed t b) : s = t ∧ a = b := by
  cases s <;> cases t
  · exact ⟨rfl, h⟩
  · exact absurd (congrArg List.head? h) (fun head => ha (head.trans rfl))
  · exact absurd (congrArg List.head? h) (fun head => hb (head.symm.trans rfl))
  · exact ⟨rfl, List.tail_eq_of_cons_eq h⟩

/-- The mantissas and exponents that a double can have. -/
def IsDouble : Binary → Prop
  | .nan | .infinite _ => True
  | .finite _ m q => m = 0 ∧ q = leastExponent ∨ Canonical m q

/-- The number that the digits of a finite double stand for. -/
theorem positionalValue_body (negative : Bool) (m : ℕ) (q : ℤ) :
    m = 0 ∧ positionalValue (finite negative m q).body = 0 ∨
      0 < m ∧ BelongsTo m q (positionalValue (finite negative m q).body) := by
  simp only [body, positionalValue_writePositional]
  rcases Nat.eq_zero_or_pos m with rfl | hm
  · exact .inl ⟨rfl, by simp [Decimal.toRat]⟩
  · rw [if_neg hm.ne']
    exact .inr ⟨hm, belongsTo_shortest hm q⟩

/-- Finite doubles with the same digits are the same up to their sign. -/
theorem eq_of_body_finite {s t : Bool} {m n : ℕ} {q k : ℤ} (h : (finite s m q).IsDouble)
    (h' : (finite t n k).IsDouble) (same : (finite s m q).body = (finite t n k).body) :
    m = n ∧ q = k := by
  have value := positionalValue_body s m q
  have value' := positionalValue_body t n k
  rw [same] at value
  rcases value with ⟨rfl, zero⟩ | ⟨hm, belongs⟩ <;> rcases value' with ⟨rfl, zero'⟩ | ⟨hn, belongs'⟩
  · -- A mantissa of zero is not canonical, so the exponent is that of the zeros.
    have least {q : ℤ} (h : 0 = 0 ∧ q = leastExponent ∨ Canonical 0 q) : q = leastExponent :=
      h.elim And.right fun canonical => absurd canonical.pos (by decide)
    exact ⟨rfl, (least h).trans (least h').symm⟩
  · exact absurd (belongs'.pos hn) (by rw [zero]; exact lt_irrefl 0)
  · exact absurd (belongs.pos hm) (by rw [zero']; exact lt_irrefl 0)
  · exact eq_of_belongsTo (h.resolve_left fun zero => hm.ne' zero.1).normalized
      (h'.resolve_left fun zero => hn.ne' zero.1).normalized belongs belongs'

/-- What a double stands for is known by its text. -/
theorem eq_of_writeBinary_eq {b b' : Binary} (h : b.IsDouble) (h' : b'.IsDouble)
    (same : Style.plain.writeBinary b = Style.plain.writeBinary b') : b = b' := by
  rw [writeBinary_plain, writeBinary_plain] at same
  obtain ⟨sign, body⟩ := signed_inj (head?_body_ne_minus b) (head?_body_ne_minus b') same
  have first : b.body.head? = b'.body.head? := congrArg List.head? body
  have words : "NaN".toList.head? ≠ "inf".toList.head? := by decide
  cases b with
  | nan =>
    cases b' with
    | nan => rfl
    | infinite t => exact absurd first words
    | finite t n k => exact absurd first.symm (head?_body_finite_ne t n k (by decide))
  | infinite s =>
    cases b' with
    | nan => exact absurd first.symm words
    | infinite t =>
      obtain rfl : s = t := sign
      rfl
    | finite t n k => exact absurd first.symm (head?_body_finite_ne t n k (by decide))
  | finite s m q =>
    cases b' with
    | nan => exact absurd first (head?_body_finite_ne s m q (by decide))
    | infinite t => exact absurd first (head?_body_finite_ne s m q (by decide))
    | finite t n k =>
      obtain rfl : s = t := sign
      obtain ⟨rfl, rfl⟩ := eq_of_body_finite h h' body
      rfl

end Binary

section Bits

open Float.Model Float.Model.UnpackedFloat

/-- Whether a sign is a minus. -/
def isMinus : Sign → Bool
  | .negative => true
  | .positive => false

/-- What the parts of a double stand for. -/
def Binary.ofParts : UnpackedFloat → Binary
  | .notANumber => .nan
  | .infinity s => .infinite (isMinus s)
  | .zero s => .finite (isMinus s) 0 leastExponent
  | .finite s m e _ => .finite (isMinus s) m e

section Decoding

variable (b : BitVec Format.binary64.numBits)

theorem toNat_unpackMantissa : (unpackMantissa b).toNat = b.toNat % binadeStart := by
  simp only [unpackMantissa, BitVec.toNat_cast, BitVec.extractLsb_toNat, Nat.shiftRight_zero]
  rfl

theorem toNat_unpackExponent : (unpackExponent b).toNat = b.toNat / binadeStart % 0x800 := by
  simp only [unpackExponent, BitVec.toNat_cast, BitVec.extractLsb_toNat, Nat.shiftRight_eq_div_pow]
  rfl

theorem isMinus_unpackSign :
    isMinus (Sign.ofBitVec (unpackSign b)) = decide (b.toNat / 0x8000000000000000 = 1) := by
  have small : b.toNat < 2 ^ 64 := b.isLt
  have bit : (unpackSign b).toNat = b.toNat / 0x8000000000000000 := by
    simp only [unpackSign, BitVec.toNat_cast, BitVec.extractLsb_toNat, Nat.shiftRight_eq_div_pow]
    show b.toNat / 2 ^ 63 % 2 ^ 1 = _
    omega
  rw [← bit]
  generalize unpackSign b = v
  revert v
  decide

/-- A word is decoded into what its parts stand for. -/
theorem Binary.ofBits_eq : Binary.ofBits b.toNat = .ofParts (unpack .binary64 b) := by
  have mantissa := toNat_unpackMantissa b
  have exponent := toNat_unpackExponent b
  have bias : ((Format.binary64.exponentBias : Nat) : Int) = 1023 := rfl
  have top : unpackExponent b = -1#11 ↔ b.toNat / binadeStart % 0x800 = 0x7ff := by
    rw [← exponent, ← BitVec.toNat_inj]
    rfl
  have bottom : unpackExponent b = 0#11 ↔ b.toNat / binadeStart % 0x800 = 0 := by
    rw [← exponent, ← BitVec.toNat_inj]
    rfl
  have empty : unpackMantissa b = 0#52 ↔ b.toNat % binadeStart = 0 := by
    rw [← mantissa, ← BitVec.toNat_inj]
    rfl
  simp only [Binary.ofBits, UnpackedFloat.unpack, ← isMinus_unpackSign b, ← top, ← bottom, ← empty]
  split
  · split <;> rfl
  · split
    · next subnormal =>
      split
      · next zero =>
        rw [← mantissa, zero]
        rfl
      · simp only [Binary.ofParts, mantissa, subnormal]
        rfl
    · have least : leastExponent = -1074 := rfl
      have normal : leastExponent + (b.toNat / binadeStart % 0x800 : ℕ) - 1 =
          (b.toNat / binadeStart % 0x800 : ℕ) - (1023 + (52 : ℕ)) := by
        omega
      simp only [Binary.ofParts, toNat_implicit_append, mantissa, exponent, bias, normal]
      rfl

end Decoding

theorem Binary.ofFloat_eq (x : Float) : Binary.ofFloat x = .ofParts (parts x) :=
  Binary.ofBits_eq x.toBits.toBitVec

/-- Different parts stand for different things. -/
theorem Binary.ofParts_injective : Function.Injective Binary.ofParts := by
  have signs {s t : Sign} (h : isMinus s = isMinus t) : s = t := by
    cases s <;> cases t <;> first | rfl | cases h
  intro f g h
  cases f <;> cases g <;> simp only [Binary.ofParts, Binary.infinite.injEq, Binary.finite.injEq,
    reduceCtorEq] at h
  case notANumber.notANumber => rfl
  case infinity.infinity => rw [signs h]
  case zero.zero => rw [signs h.1]
  case finite.finite =>
    obtain ⟨sign, rfl, rfl⟩ := h
    rw [signs sign]
  all_goals omega

theorem Binary.isDouble_ofFloat (x : Float) : (Binary.ofFloat x).IsDouble := by
  rw [Binary.ofFloat_eq]
  cases h : parts x with
  | notANumber => trivial
  | infinity s => trivial
  | zero s => exact .inl ⟨rfl, rfl⟩
  | finite s m e hm => exact .inr (canonical_of_parts h)

end Bits

/-- Different doubles have different texts. -/
theorem text_injective : Function.Injective text := by
  intro x y h
  have written : Style.plain.writeBinary (.ofFloat x) = Style.plain.writeBinary (.ofFloat y) :=
    String.ofList_injective h
  have same := Binary.eq_of_writeBinary_eq (Binary.isDouble_ofFloat x) (Binary.isDouble_ofFloat y)
    written
  rw [Binary.ofFloat_eq, Binary.ofFloat_eq] at same
  exact eq_of_parts_eq (Binary.ofParts_injective same)

/-- The text of a double starts with a digit, a minus sign or one of the two words. -/
theorem head?_text_ne (x : Float) {c : Char} (digit : c.isDigit = false)
    (other : c ∉ ['-', 'N', 'i']) : (text x).toList.head? ≠ some c := by
  have written : (text x).toList = signed (Binary.ofFloat x).isNegative (Binary.ofFloat x).body := by
    rw [← Binary.writeBinary_plain]
    exact String.toList_ofList
  simp only [List.mem_cons, List.not_mem_nil, or_false, not_or] at other
  obtain ⟨minus, nan, inf⟩ := other
  rw [written]
  cases (Binary.ofFloat x).isNegative with
  | true => exact fun head => minus (Option.some.inj head).symm
  | false =>
    cases Binary.ofFloat x with
    | nan => exact fun head => nan (Option.some.inj head).symm
    | infinite s => exact fun head => inf (Option.some.inj head).symm
    | finite s m q => exact Binary.head?_body_finite_ne s m q digit

theorem text_zero : text 0.0 = "0" := by
  decide +kernel

theorem text_one : text 1.0 = "1" := by
  decide +kernel

theorem text_minusOne : text (-1.0) = "-1" := by
  decide +kernel

end Calculus.Numeral

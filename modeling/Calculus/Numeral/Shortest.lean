import Calculus.Numeral.Binary

/-!
# The fewest decimal digits that read back

A reader of decimals rounds to the nearest double, and a tie goes to the even mantissa, so the
decimals that read back as `m · 2 ^ q` fill an interval around it: half a gap to each side, with
its ends exactly if `m` is even. `shortest m q` is the point of that interval with the fewest
digits; among several of that length the nearest one, and the larger of two equally near ones.

The search runs on one fine decimal grid. `Window.around` places the interval on the grid of
`10 ^ k` with three exact divisions; after that every coarser grid is a matter of small natural
numbers. The grid has at least eighteen digits, and seventeen are always enough; should a search
fail all the same, the exact expansion is still an answer that reads back.
-/

namespace Calculus.Numeral

/-- The decimal number `digits · 10 ^ exponent`. -/
structure Decimal where
  digits : Nat
  exponent : Int
  deriving DecidableEq

/-- The same number without trailing zeros among its digits. -/
def Decimal.trim (d : Decimal) : Decimal :=
  if h : 0 < d.digits ∧ d.digits % 10 = 0 then
    trim ⟨d.digits / 10, d.exponent + 1⟩
  else d
termination_by d.digits
decreasing_by omega

/-- The finite decimal expansion of `m · 2 ^ q`. -/
def Decimal.exact (m : Nat) (q : Int) : Decimal :=
  match q with
  | .ofNat n => ⟨m * Nat.pow 2 n, 0⟩
  | .negSucc n => ⟨m * Nat.pow 5 (n + 1), .negSucc n⟩

/-- The decimals that read back as one double, as seen on a decimal grid: the least and the
greatest grid point among them, and the double itself rounded down to the grid. -/
structure Window where
  low : Nat
  value : Nat
  high : Nat

/-- The window of `m · 2 ^ q` on the grid of the multiples of `10 ^ k`. The gap below a binade
start is half as wide, so positions are counted in quarters of a gap. -/
def Window.around (m : Nat) (q k : Int) : Window :=
  let up := Nat.pow 2 (q - 2).toNat * Nat.pow 10 (-k).toNat
  let down := Nat.pow 2 (2 - q).toNat * Nat.pow 10 k.toNat
  let below := if m = binadeStart ∧ leastExponent < q then 1 else 2
  let left := (4 * m - below) * up
  let right := (4 * m + 2) * up
  let value := 4 * m * up / down
  if m % 2 = 0 then
    { low := (left + down - 1) / down, value, high := right / down }
  else
    { low := left / down + 1, value, high := (right - 1) / down }

/-- The multiple of `unit` that is nearest to the value among those of its two neighbours that
read back; the larger one if they are equally near. -/
def Window.nearest? (w : Window) (unit : Nat) : Option Nat :=
  let below := w.value / unit * unit
  let above := below + unit
  if w.low ≤ below ∧ (w.high < above ∨ w.value < below + unit / 2) then some below
  else if above ≤ w.high then some above
  else none

/-- The first hit on the grids of `10 ^ n`, …, `10 ^ 1`, from the coarsest one that does not
exceed the value. -/
def Window.search? (w : Window) : Nat → Option Nat
  | 0 => none
  | n + 1 =>
    let unit := Nat.pow 10 (n + 1)
    match if unit ≤ w.value then w.nearest? unit else none with
    | some hit => some hit
    | none => w.search? n

/-- An exponent `k` for which `m · 2 ^ q` has eighteen or nineteen digits before the point when
counted in units of `10 ^ k`. -/
def gridExponent (m : Nat) (q : Int) : Int :=
  (q + Nat.log2 m) * 301029995663 / 1000000000000 - 17

/-- The shortest decimal that reads back as `m · 2 ^ q`, for `m` positive. -/
def shortest (m : Nat) (q : Int) : Decimal :=
  let k := gridExponent m q
  match (Window.around m q k).search? 18 with
  | some hit => Decimal.trim ⟨hit, k⟩
  | none => Decimal.trim (.exact m q)

end Calculus.Numeral

import Retime.Decimal.Binary64

/-! # The fewest digits that identify a number

`Decimal.shortest` picks, among all decimals that round to a given magnitude,
one with the fewest digits, and of those the nearest. Candidates are taken from
decimal grids of growing fineness: on each grid only the two neighbours of the
magnitude can be nearest, and the first grid with a neighbour that reads back
has the fewest digits.
-/

namespace Retime

/-- The number `digits * 10 ^ exponent`. -/
structure Decimal where
  digits : Nat
  exponent : Int
deriving DecidableEq, Repr

/-- Which of two equally near neighbours is taken. -/
inductive Tie where
  | toEven
  | upward
deriving DecidableEq, Repr

namespace Decimal

/-- Orders `a * 10 ^ i` and `b * 2 ^ j`, exactly. -/
def compareScaled (a : Nat) (i : Int) (b : Nat) (j : Int) : Ordering :=
  compare (a * Nat.pow 10 i.toNat * Nat.pow 2 (-j).toNat)
    (b * Nat.pow 2 j.toNat * Nat.pow 10 (-i).toNat)

/-- Whether `d` rounds to `x`: it lies between the midpoints to the neighbours
of `x`, and the midpoints themselves belong to an even significand. -/
def ReadsBack (x : Binary64) (d : Decimal) : Prop :=
  let low := if x.narrowBelow then 4 * x.significand - 1 else 4 * x.significand - 2
  let high := 4 * x.significand + 2
  let fromLow := compareScaled d.digits d.exponent low (x.exponent - 2)
  let fromHigh := compareScaled d.digits d.exponent high (x.exponent - 2)
  let closed := x.significand % 2 = 0
  (fromLow = .gt ∨ closed ∧ fromLow = .eq) ∧ (fromHigh = .lt ∨ closed ∧ fromHigh = .eq)

instance (x : Binary64) (d : Decimal) : Decidable (ReadsBack x d) := by
  unfold ReadsBack
  infer_instance

/-- How many decimal digits `n` has; none for zero. -/
def digitCount (n : Nat) : Nat :=
  if n = 0 then 0 else digitCount (n / 10) + 1
termination_by n

/-- The least `k` with `x < 10 ^ k`, for a magnitude `x` other than zero. -/
def scale (x : Binary64) : Int :=
  if x.denominator ≤ x.numerator then
    digitCount (x.numerator / x.denominator)
  else
    1 - digitCount ((x.denominator - 1) / x.numerator)

/-- The neighbour of `x` on the grid `10 ^ e` that reads back, the nearer one if
both do, and by `tie` if both are equally near. -/
def onGrid? (tie : Tie) (x : Binary64) (e : Int) : Option Decimal :=
  let num := x.numerator * Nat.pow 10 (-e).toNat
  let den := x.denominator * Nat.pow 10 e.toNat
  let below : Decimal := ⟨num / den, e⟩
  let above : Decimal := ⟨num / den + 1, e⟩
  if ReadsBack x below then
    if ReadsBack x above then
      match compare (2 * (num % den)) den, tie with
      | .lt, _ => some below
      | .gt, _ => some above
      | .eq, .upward => some above
      | .eq, .toEven => some (if below.digits % 2 = 0 then below else above)
    else some below
  else if ReadsBack x above then some above
  else none

/-- Moves trailing zeros of the digits into the exponent. -/
def trim (d : Decimal) : Decimal :=
  if h : d.digits % 10 = 0 ∧ d.digits ≠ 0 then
    trim ⟨d.digits / 10, d.exponent + 1⟩
  else d
termination_by d.digits
decreasing_by omega

/-- The exact value, with as many digits as that takes. -/
def exact (x : Binary64) : Decimal :=
  ⟨x.significand * Nat.pow 2 x.exponent.toNat * Nat.pow 5 (-x.exponent).toNat, min x.exponent 0⟩

/-- The fewest digits that read back to `x`, the nearest to `x` among them. -/
def shortest (tie : Tie) (x : Binary64) : Decimal :=
  if x.significand = 0 then ⟨0, 0⟩
  else
    let grids := (List.range 17).map fun n : Nat => scale x - (n + 1)
    trim ((grids.findSome? (onGrid? tie x)).getD (exact x))

end Decimal

end Retime

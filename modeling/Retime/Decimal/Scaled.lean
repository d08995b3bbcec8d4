import Retime.Decimal.Numeral

/-! # Reading with one scaling

`Numeral.scaled?` reads a number through a significand of 64 bits and a scaling
by one power of ten. Each step rounds on its own, so the result may differ from
the nearest `Float` in the last place, and numbers beyond the finite range are
refused.
-/

namespace Retime.Numeral

/-- The largest significand. -/
def maxSignificand : Nat := Nat.pow 2 64 - 1

/-- A significand and the power of ten it is scaled by. -/
structure Scaled where
  significand : Nat := 0
  exponent : Int := 0

/-- Takes in digits before the point. From the first one that does not fit on,
each only counts for the exponent. -/
def Scaled.addWhole (v : Scaled) : List Char → Scaled
  | [] => v
  | c :: ds =>
    let next := 10 * v.significand + (c.toNat - '0'.toNat)
    if next ≤ maxSignificand then ({ v with significand := next } : Scaled).addWhole ds
    else { v with exponent := v.exponent + (ds.length + 1) }

/-- Takes in digits after the point, up to the first one that does not fit. -/
def Scaled.addFraction (v : Scaled) : List Char → Scaled
  | [] => v
  | c :: ds =>
    let next := 10 * v.significand + (c.toNat - '0'.toNat)
    if next ≤ maxSignificand then
      ({ significand := next, exponent := v.exponent - 1 } : Scaled).addFraction ds
    else v

/-- The largest power of ten that is a finite `Float`. -/
def maxPower : Nat := 308

def powerOfTen (k : Nat) : Float :=
  Float.ofScientific 1 false k

/-- Divides `x` by `10 ^ k`, in steps of the largest power while `k` is larger. -/
def divideByPower (x : Float) (k : Nat) : Float :=
  if k ≤ maxPower then x / powerOfTen k
  else if x == 0 then x
  else divideByPower (x / powerOfTen maxPower) (k - maxPower)
termination_by k
decreasing_by simp only [maxPower] at *; omega

/-- Scales the significand; nothing if that leaves the finite range. -/
def Scaled.value? (v : Scaled) : Option Float :=
  let x := v.significand.toUInt64.toFloat
  if v.exponent < 0 then some (divideByPower x v.exponent.natAbs)
  else if v.exponent.natAbs ≤ maxPower then
    let y := x * powerOfTen v.exponent.natAbs
    if y.isInf then none else some y
  else if v.significand = 0 then some x
  else none

/-- The largest exponent that is taken at its value. -/
def maxExponent : Nat := Nat.pow 2 31 - 1

/-- The value without its sign. An exponent beyond the largest one leaves zero
if it is negative or the significand is zero, and nothing otherwise. -/
def scaledMagnitude? (n : Numeral) : Option Float :=
  let v := (({} : Scaled).addWhole n.whole).addFraction (n.fraction.getD [])
  let e := n.exponent.getD 0
  if maxExponent < e.natAbs then
    if v.significand = 0 ∨ e < 0 then some 0 else none
  else ({ v with exponent := v.exponent + e } : Scaled).value?

/-- The value of a number, or nothing if it is beyond the finite range. -/
def scaled? (n : Numeral) : Option Float :=
  (scaledMagnitude? n).map fun x => if n.negative then -x else x

end Retime.Numeral

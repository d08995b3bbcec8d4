/-! # Exact magnitudes of floating-point numbers

A finite `Float` is a sign and a magnitude `significand * 2 ^ exponent`. Every
decimal text in this library is chosen by exact arithmetic on that magnitude;
floating-point operations decide nothing about digits.
-/

namespace Retime

/-- The magnitude of a finite `Float`, namely `significand * 2 ^ exponent`. -/
structure Binary64 where
  significand : Nat
  exponent : Int
  /-- The next smaller magnitude is half as far away as the next larger one. -/
  narrowBelow : Bool
deriving DecidableEq, Repr

namespace Binary64

/-- The magnitude that the bits of `x` encode; meant for finite `x`. -/
def ofFloat (x : Float) : Binary64 :=
  let bits := x.toBits.toNat
  let biased : Nat := bits / Nat.pow 2 52 % Nat.pow 2 11
  let fraction : Nat := bits % Nat.pow 2 52
  if biased = 0 then
    { significand := fraction, exponent := -1074, narrowBelow := false }
  else
    { significand := Nat.pow 2 52 + fraction
      exponent := (biased : Int) - 1075
      narrowBelow := fraction = 0 && 1 < biased }

/-- The magnitude is `numerator / denominator`. -/
def numerator (x : Binary64) : Nat :=
  x.significand * Nat.pow 2 x.exponent.toNat

/-- A power of two, so never zero. -/
def denominator (x : Binary64) : Nat :=
  Nat.pow 2 (-x.exponent).toNat

end Binary64

/-- Whether the sign bit is set, which negative zero and negative infinity have too. -/
def hasSignBit (x : Float) : Bool :=
  Nat.pow 2 63 ≤ x.toBits.toNat

end Retime

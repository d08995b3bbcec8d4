import Retime.Decimal.Binary64

/-! # A fixed number of places

`Fixed.text places x` writes the exact value of `x` rounded to that many decimal
places. A value exactly between two neighbours goes to the even one, and a
negative number keeps its sign even when nothing of it is left.
-/

namespace Retime.Fixed

/-- The integer nearest to `num / den`; of two equally near ones the even one. -/
def nearestEven (num den : Nat) : Nat :=
  let q := num / den
  match compare (2 * (num % den)) den with
  | .lt => q
  | .gt => q + 1
  | .eq => if q % 2 = 0 then q else q + 1

/-- Pads on the left with zeros up to `width` characters. -/
def padLeft (width : Nat) (ds : List Char) : List Char :=
  List.replicate (width - ds.length) '0' ++ ds

/-- `x` with exactly `places` digits after the point. -/
def text (places : Nat) (x : Float) : String :=
  if x.isNaN then "NaN"
  else if x.isInf then if hasSignBit x then "-inf" else "inf"
  else
    let magnitude := Binary64.ofFloat x
    let scaled := nearestEven (magnitude.numerator * Nat.pow 10 places) magnitude.denominator
    let ds := padLeft (places + 1) (toString scaled).toList
    let whole := ds.length - places
    (if hasSignBit x then "-" else "")
      ++ String.ofList (ds.take whole) ++ "." ++ String.ofList (ds.drop whole)

end Retime.Fixed

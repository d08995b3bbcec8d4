import Retime.Decimal.Numeral

/-! # Layout of shortest decimals

How a number with its fewest digits is written: where positional writing ends,
whether a whole number shows a point, which way ties go and what stands for the
values that are no numbers. A `Layout` collects these decisions for one format.
-/

namespace Retime

/-- The decisions of one text format for numbers. -/
structure Layout where
  /-- Exponents of the leading digit that are written positionally: from the
  first bound on and below the second. All of them, if absent. -/
  positional : Option (Int × Int)
  /-- Whole numbers written positionally end in `.0`. -/
  pointZero : Bool
  tie : Tie
  nan : String
  infinity : String
  negativeInfinity : String

namespace Layout

/-- Numbers inside messages are always positional, without a point on whole
numbers; equally near candidates go upward. -/
def message : Layout where
  positional := none
  pointZero := false
  tie := .upward
  nan := "NaN"
  infinity := "inf"
  negativeInfinity := "-inf"

/-- Numbers in JSON text are positional while the leading digit lies between
`10 ^ (-5)` and `10 ^ 15`, show that they are no integers, and are `null` when
they are no numbers. -/
def json : Layout where
  positional := some (-5, 16)
  pointZero := true
  tie := .toEven
  nan := "null"
  infinity := "null"
  negativeInfinity := "null"

/-- Places the digits `ds`, the first of which stands at `10 ^ lead`, without an exponent. -/
def place (layout : Layout) (ds : List Char) (lead : Int) : Numeral :=
  let whole := (lead + 1).toNat
  if lead < 0 then
    { whole := ['0'], fraction := some (List.replicate (-lead - 1).toNat '0' ++ ds) }
  else if ds.length ≤ whole then
    { whole := ds ++ List.replicate (whole - ds.length) '0'
      fraction := if layout.pointZero then some ['0'] else none }
  else
    { whole := ds.take whole, fraction := some (ds.drop whole) }

/-- Places the digits `ds`, the first of which stands at `10 ^ lead`, with an exponent. -/
def placeScientific (ds : List Char) (lead : Int) : Numeral where
  whole := ds.take 1
  fraction := if ds.length ≤ 1 then none else some (ds.drop 1)
  exponent := some lead

/-- How a decimal that is not negative is written. -/
def ofDecimal (layout : Layout) (d : Decimal) : Numeral :=
  let ds := (toString d.digits).toList
  let lead := (ds.length : Int) - 1 + d.exponent
  match layout.positional with
  | none => layout.place ds lead
  | some (start, stop) =>
    if start ≤ lead ∧ lead < stop then layout.place ds lead else placeScientific ds lead

/-- How a finite number is written; nothing for the others. -/
def numeral? (layout : Layout) (x : Float) : Option Numeral :=
  if x.isFinite then
    let n := layout.ofDecimal (Decimal.shortest layout.tie (Binary64.ofFloat x))
    some { n with negative := hasSignBit x }
  else none

/-- The text of a number in this layout. -/
def text (layout : Layout) (x : Float) : String :=
  match layout.numeral? x with
  | some n => n.text
  | none =>
    if x.isNaN then layout.nan
    else if hasSignBit x then layout.negativeInfinity
    else layout.infinity

end Layout

end Retime

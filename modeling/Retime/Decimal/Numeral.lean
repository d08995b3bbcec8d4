import Retime.Decimal.Shortest

/-! # Numbers as they are written

A `Numeral` keeps the digits of a number the way a text shows them, so that a
whole number, a number with a point and one with an exponent stay apart. It has
one text, a strict grammar that reads that text, and the `Float` nearest to it.
-/

namespace Retime

/-- A written number: digits before the point, digits after it if there is one,
and the exponent if there is one. The digits are decimal digits. -/
structure Numeral where
  negative : Bool := false
  whole : List Char
  fraction : Option (List Char) := none
  exponent : Option Int := none
deriving DecidableEq, Repr

namespace Numeral

/-- The value of a row of decimal digits. -/
def digitsValue (ds : List Char) : Nat :=
  ds.foldl (fun n c => 10 * n + (c.toNat - '0'.toNat)) 0

/-- A row of decimal digits, at least one. -/
def IsDigits (ds : List Char) : Prop :=
  ds ≠ [] ∧ ∀ c ∈ ds, c.isDigit

instance (ds : List Char) : Decidable (IsDigits ds) :=
  inferInstanceAs (Decidable (_ ∧ _))

def ofNat (n : Nat) : Numeral where
  whole := (toString n).toList

/-- A numeral without point and exponent. -/
def IsInteger (n : Numeral) : Prop :=
  n.fraction = none ∧ n.exponent = none

instance (n : Numeral) : Decidable n.IsInteger :=
  inferInstanceAs (Decidable (_ ∧ _))

/-- An exponent is written with its sign. -/
def text (n : Numeral) : String :=
  (if n.negative then "-" else "") ++ String.ofList n.whole
    ++ (match n.fraction with
      | none => ""
      | some ds => "." ++ String.ofList ds)
    ++ (match n.exponent with
      | none => ""
      | some e => "e" ++ (if 0 ≤ e then "+" else "") ++ toString e)

/-- Splits off an optional sign; the first part tells whether it was a minus. -/
def splitSign : List Char → Bool × List Char
  | '-' :: s => (true, s)
  | '+' :: s => (false, s)
  | s => (false, s)

/-- Reads an exponent: an optional sign and digits. -/
def exponent? (s : List Char) : Option Int :=
  let (negative, ds) := splitSign s
  if IsDigits ds then
    some (if negative then -(digitsValue ds : Int) else digitsValue ds)
  else none

/-- Splits a text at its exponent mark, if it has one. -/
def splitExponent (s : List Char) : List Char × Option (List Char) :=
  let mark := fun c => c = 'e' || c = 'E'
  match s.dropWhile (!mark ·) with
  | [] => (s, none)
  | _ :: e => (s.takeWhile (!mark ·), some e)

/-- Splits a text at its point, if it has one. -/
def splitPoint (s : List Char) : List Char × Option (List Char) :=
  match s.dropWhile (· ≠ '.') with
  | [] => (s, none)
  | _ :: f => (s.takeWhile (· ≠ '.'), some f)

/-- Reads an unsigned number; digits may be missing on one side of the point. -/
def unsigned? (s : List Char) : Option Numeral := do
  let (mantissa, mark) := splitExponent s
  let exponent ← match mark with
    | none => some none
    | some e => (exponent? e).map some
  let (whole, fraction) := splitPoint mantissa
  if IsDigits (whole ++ fraction.getD []) then
    some { whole, fraction, exponent }
  else none

/-- Reads a number in the strict form: a minus at most, no superfluous leading
zero, and digits on both sides of a point. -/
def strict? (s : List Char) : Option Numeral := do
  let (negative, body) := match s with
    | '-' :: r => (true, r)
    | r => (false, r)
  let n ← unsigned? body
  if n.whole = [] ∨ n.fraction = some [] then none
  else if n.whole.head? = some '0' ∧ n.whole ≠ ['0'] then none
  else some { n with negative }

/-- The number as digits and a power of ten, without its sign. -/
def magnitude (n : Numeral) : Decimal :=
  let fraction := n.fraction.getD []
  ⟨digitsValue (n.whole ++ fraction), n.exponent.getD 0 - fraction.length⟩

end Numeral

namespace Decimal

/-- The `Float` nearest to a decimal, ties to even. Beyond the range of finite
numbers that is infinity, below the least positive one it is zero; exponents far
outside are decided without computing their power of ten. -/
def nearest (d : Decimal) : Float :=
  let lead := digitCount d.digits + d.exponent
  if d.digits = 0 ∨ lead < -400 then 0
  else if 400 < lead then 1 / 0
  else Float.ofScientific d.digits (d.exponent < 0) d.exponent.natAbs

end Decimal

namespace Numeral

/-- The `Float` nearest to the number. -/
def nearest (n : Numeral) : Float :=
  if n.negative then -n.magnitude.nearest else n.magnitude.nearest

end Numeral

end Retime

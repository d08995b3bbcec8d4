import Retime.Kind.Adder
import Retime.Kind.FloatNegation
import Retime.Kind.SumOfProducts

/-! # The built-in kinds -/

namespace Retime

/-- The families of the built-in kinds. -/
inductive Family where
  | adder
  | multiAdder
  | multiplier
  | sumOfProducts
  | floatNegation
deriving DecidableEq, Repr

namespace Family

def all : List Family :=
  [adder, multiAdder, multiplier, sumOfProducts, floatNegation]

def name : Family → String
  | adder => "int-adder"
  | multiAdder => "multi-adder"
  | multiplier => "int-multiplier"
  | sumOfProducts => "sum-of-products"
  | floatNegation => "fp-negate"

def ofName? (name : String) : Option Family :=
  all.find? (·.name = name)

end Family

/-- The sizes that the built-in kinds depend on, with the values they have unless
they are given. -/
structure Sizes where
  /-- The width of integer operands. -/
  width : Nat := 32
  /-- The number of operands. -/
  count : Nat := 4
  /-- The width of the exponent. -/
  exponent : Nat := 8
  /-- The width of the fraction. -/
  fraction : Nat := 23
deriving DecidableEq, Repr

/-- The kind of a family with the given sizes. -/
def Family.kind (sizes : Sizes) : Family → Kind
  | adder => .adder sizes.width
  | multiAdder => .multiAdder sizes.width sizes.count
  | multiplier => .multiplier sizes.width
  | sumOfProducts => .sumOfProducts sizes.width sizes.count
  | floatNegation => .floatNegation sizes.exponent sizes.fraction

end Retime

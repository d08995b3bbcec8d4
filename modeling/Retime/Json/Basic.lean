import Retime.Decimal.Layout

/-! # JSON values

A number keeps the digits it is written with, and an object keeps its members in
order, repeated keys included; what they mean is up to the reader.
-/

namespace Retime

/-- A JSON value. -/
inductive Json where
  | null
  | bool (b : Bool)
  | number (n : Numeral)
  | string (s : String)
  | array (items : List Json)
  | object (members : List (String × Json))

namespace Json

instance : Inhabited Json := ⟨null⟩

def ofNat (n : Nat) : Json :=
  number (Numeral.ofNat n)

/-- A number that shows it is no integer; the values that are no numbers are `null`. -/
def ofFloat (x : Float) : Json :=
  match Layout.json.numeral? x with
  | some n => number n
  | none => null

/-- The value of the first member with that key. -/
def get? (key : String) : Json → Option Json
  | object members => members.lookup key
  | _ => none

end Json

end Retime

/-! # Widths

A signal carries a plain vector of bits or a floating-point word, whose fields are,
most significant first, two exception bits, the sign, the exponent and the fraction.
Widths are counted without a limit. With 32 bits for a width, the same is true of all
that is computed from them as long as it fits.
-/

namespace Retime

/-- The width of a signal. -/
inductive Width where
  /-- A plain vector. -/
  | vector (bits : Nat)
  /-- A floating-point word, given by the widths of its exponent and fraction. -/
  | float (exponent fraction : Nat)
deriving DecidableEq, Repr

/-- A field of a floating-point word. -/
inductive FloatField where
  | exception
  | sign
  | exponent
  | fraction
deriving DecidableEq, Repr

def FloatField.name : FloatField → String
  | exception => "exception"
  | sign => "sign"
  | exponent => "exponent"
  | fraction => "fraction"

/-- A range of bit positions, both ends included. -/
structure BitRange where
  high : Nat
  low : Nat
deriving DecidableEq, Repr

/-- The text that selects a range of an identifier; a single position stands alone. -/
def BitRange.select (r : BitRange) (identifier : String) : String :=
  if r.high = r.low then s!"{identifier}[{r.high}]" else s!"{identifier}[{r.high}:{r.low}]"

namespace Width

/-- The total number of bits; `3 + exponent + fraction` is not cut to 32 bits. -/
def bits : Width → Nat
  | vector n => n
  | float we wf => 3 + we + wf

def isFloat : Width → Bool
  | vector _ => false
  | float _ _ => true

/-- Where a field lies; plain vectors have none. An empty field is given as the
position below it, or position zero. -/
def fieldRange? : Width → FloatField → Option BitRange
  | vector _, _ => none
  | float we wf, .exception => some ⟨we + wf + 2, we + wf + 1⟩
  | float we wf, .sign => some ⟨we + wf, we + wf⟩
  | float we wf, .exponent => some ⟨we + wf - 1, wf⟩
  | float _ wf, .fraction => some ⟨wf - 1, 0⟩

def text : Width → String
  | vector n => toString n
  | float we wf => s!"fp({we},{wf})"

end Width

end Retime

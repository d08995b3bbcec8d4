import Retime.Kind.Rake
import Retime.Kind.Segment

/-! # Multipliers

The product of two words of equal width: partial products with segments of the
second word, which fit the lookup tables of the device, and a rake that adds them.
The widths of both are at most twice the width of the words. They are not cut to 32
bits, which makes no difference to words of less than `2 ^ 31` bits.
-/

namespace Retime.Kind

open Build Verilog

namespace Multiplier

/-- The size of the segments. -/
def segmentSize (device : Device) : Nat :=
  max (device.lutInputs / 2) 1

/-- The name of a partial product. -/
def partName (i : Nat) : String :=
  s!"pp{i}"

/-- Declares the product of `x` with segment `i` of `y`. -/
def multiplySegment (width size : Nat) (x y : String) (i : Nat) : Build Unit :=
  let g := Segment.nth width size i
  declare (partName i) (width + g.size) (Expr.mul (.ident x) (.slice y g.high g.low)).text

def build (width : Nat) (device : Device) : Build Unit := do
  input "X" width
  input "Y" width
  let size := segmentSize device
  let count := Segment.count width size
  accrue (device.wireDelay count + device.lutDelay)
  let x ← consume "X"
  let y ← consume "Y"
  let _ ← forEach (multiplySegment width size x y) (List.range count)
  let rake : Rake :=
    { width := 2 * width
      term := partName
      sum := fun i => s!"sum{i}"
      shift := fun i => some (i * size) }
  rake.build device count

end Multiplier

def multiplier (width : Nat) : Kind where
  name := s!"IntMultiplier_{width}x{width}"
  design device := (Multiplier.build width device).design

end Retime.Kind

import Retime.Design
import Retime.Kind.Segment
import Retime.Verilog.Expr

/-! # Adders

The sum of two words of equal width, without its last carry. If one carry chain
does not fit the period, the words are added in segments; each segment hands its
carry on to the next one.
-/

namespace Retime.Kind

open Build Verilog

namespace Adder

/-- The largest size from `size` on, up to `width`, whose adder fits the period
together with a carry bit on either end. -/
def grow (device : Device) (width size : Nat) : Nat :=
  if size < width ∧ device.adderDelay (size + 2) ≤ device.period then
    grow device width (size + 1)
  else size
termination_by width - size

/-- The size of the segments. -/
def segmentSize (device : Device) (width : Nat) : Nat :=
  if device.pipelined then grow device width 1 else width

/-- The name of a partial sum. -/
def partName (i : Nat) : String :=
  s!"s{i}"

/-- The carry into segment `i`: the top bit of the partial sum before it. -/
def carryInto (size : Nat) : Nat → Build Expr
  | 0 => pure (.zero 1)
  | i + 1 => do
    let part ← consume (partName i)
    return .bit part size

/-- Adds segment `i`; the partial sum is one bit wider than the segment. -/
def addSegment (device : Device) (width size i : Nat) : Build Unit := do
  let g := Segment.nth width size i
  accrue (device.adderDelay (g.size + 1))
  let x ← consume "X"
  let y ← consume "Y"
  let carry ← carryInto size i
  let extended name := Expr.concat [.zero 1, .slice name g.high g.low]
  declare (partName i) (g.size + 1)
    (Expr.add (.add (extended x) (extended y)) carry).text

/-- The bits of the sum in segment `i`. -/
def sumOf (width size i : Nat) : Build Expr := do
  let part ← consume (partName i)
  return .slice part ((Segment.nth width size i).size - 1) 0

def inputs (width : Nat) : Build Unit := do
  input "X" width
  input "Y" width

/-- A single carry chain. -/
def whole (device : Device) (width : Nat) : Build Unit := do
  accrue (device.adderDelay width)
  let x ← consume "X"
  let y ← consume "Y"
  output "R" width (Expr.add (.ident x) (.ident y)).text

/-- Segments of the given size. -/
def segmented (device : Device) (width size : Nat) : Build Unit := do
  let indices := List.range (Segment.count width size)
  let _ ← forEach (addSegment device width size) indices
  let parts ← forEach (sumOf width size) indices.reverse
  output "R" width (Expr.concat parts).text

def build (width : Nat) (device : Device) : Build Unit := do
  inputs width
  let size := segmentSize device width
  if width ≤ size then whole device width else segmented device width size

end Adder

def adder (width : Nat) : Kind where
  name := s!"IntAdder_{width}"
  design device := (Adder.build width device).design

end Retime.Kind

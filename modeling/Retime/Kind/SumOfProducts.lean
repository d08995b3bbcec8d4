import Retime.Kind.Multiplier

/-! # Sums of products

The sum of the products of pairs of words. Every product comes from an instance of
a multiplier; the rake that adds them starts once all of them are valid.
-/

namespace Retime.Kind

open Build

namespace SumOfProducts

/-- A width that holds the sum. It is not cut to 32 bits, and has to fit them where widths do. -/
def outputWidth (width count : Nat) : Nat :=
  2 * width + ceilLog2 count

/-- The name of a product. -/
def productName (i : Nat) : String :=
  s!"P{i}"

def pairInputs (width i : Nat) : Build Unit := do
  input s!"A{i}" width
  input s!"B{i}" width

/-- Places the multiplier of pair `i`. -/
def multiply (multiplier : Handle) (i : Nat) : Build Unit :=
  let wiring := (({} : Wiring).input "X" s!"A{i}").input "Y" s!"B{i}"
  call (.instantiate multiplier s!"mult{i}" (wiring.output "R" (productName i)))

def build (width count : Nat) (device : Device) : Build Unit := do
  let multiplier ← generate (multiplier width) device
  let pairs := List.range count
  let _ ← forEach (pairInputs width) pairs
  let _ ← forEach (multiply multiplier) pairs
  let _ ← forEach (fun i => call (.join (productName i))) pairs
  let rake : Rake :=
    { width := outputWidth width count
      term := productName
      sum := fun i => s!"sop{i}" }
  rake.build device count

end SumOfProducts

def sumOfProducts (width count : Nat) : Kind where
  name := s!"SumOfProducts_{count}x{width}"
  design device := (SumOfProducts.build width count device).design

end Retime.Kind

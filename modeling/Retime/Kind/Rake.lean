import Retime.Design
import Retime.Verilog.Expr

/-! # Rakes

A rake adds terms one after another; each sum takes part in the next one.
-/

namespace Retime.Kind

open Build Verilog

structure Rake where
  /-- The width of the sums. -/
  width : Nat
  /-- The names of the terms. -/
  term : Nat → String
  /-- The name of the sum that term `i` is added to. -/
  sum : Nat → String
  /-- The places by which a term is shifted. -/
  shift : Nat → Option Nat := fun _ => none

namespace Rake

/-- A term as it is added. -/
def weigh (r : Rake) (i : Nat) (e : Expr) : Expr :=
  match r.shift i with
  | none => e
  | some places => .shiftLeft e places

/-- Adds `count` terms, from term `i` on, to `sum`, and answers with the last sum. -/
def addTerms (r : Rake) (device : Device) (sum : String) (i : Nat) : Nat → Build String
  | 0 => pure sum
  | count + 1 => do
    accrue (device.adderDelay r.width)
    let a ← consume sum
    let t ← consume (r.term i)
    declare (r.sum i) r.width (Expr.add (.ident a) (r.weigh i (.ident t))).text
    r.addTerms device (r.sum i) (i + 1) count

/-- Outputs the sum of `count` terms. -/
def build (r : Rake) (device : Device) (count : Nat) : Build Unit := do
  let sum ← r.addTerms device (r.term 0) 1 (count - 1)
  let total ← consume sum
  output "R" r.width total

end Rake

/-- The sum of `count` words, without carries. All words arrive at once; those that
are added late wait in delay lines. -/
def multiAdder (width count : Nat) : Kind where
  name := s!"MultiAdder_{count}x{width}"
  design device := Build.design do
    let word := fun i => s!"X{i}"
    let _ ← forEach (fun i => input (word i) width) (List.range count)
    let rake : Rake := { width, term := word, sum := fun i => s!"acc{i}" }
    rake.build device count

end Retime.Kind

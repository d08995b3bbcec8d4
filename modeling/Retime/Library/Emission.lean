import Retime.Library.Basic

/-! # The order of emission

Operators are written in an order in which every operator follows the ones it has
instances of.
-/

namespace Retime.Library

/-- The operators visited so far, and those among them that are in order. -/
structure Visits where
  visited : List Handle := []
  order : List Handle := []

/-- Visits an operator: the operators of its instances come before it. Reserved
names are passed over. The first argument bounds the depth of nesting. -/
def visit (lib : Library) : Nat → Visits → Handle → Visits
  | 0, v, _ => v
  | nesting + 1, v, h =>
    if h ∈ v.visited then v
    else
      let v := { v with visited := h :: v.visited }
      match lib.operator? h with
      | none => v
      | some op =>
        let v := (op.instances.toList.map (·.sub)).foldl (lib.visit nesting) v
        { v with order := v.order ++ [h] }

/-- The handles of the committed operators in the order of emission. No operator is
entered twice, so the nesting is at most the number of slots. -/
def emissionOrder (lib : Library) : List Handle :=
  let handles := lib.operators.map (·.handle)
  (handles.foldl (lib.visit (lib.slots.size + 1)) {}).order

/-- The committed operators in the order of emission. -/
def emission (lib : Library) : List Operator :=
  lib.emissionOrder.filterMap lib.operator?

end Retime.Library

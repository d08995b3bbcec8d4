import Std.Data.HashMap
import Retime.Device
import Retime.Operator.Basic

/-! # Libraries

A library holds operators by name. A name is reserved when its operator is created;
the operator itself is built outside and committed once it is finished, so that it
can read the interfaces of others while it changes. Slots are only ever added, and
there is no limit to their number.
-/

namespace Retime

/-- The place of one operator. -/
structure Slot where
  name : String
  /-- Present once the operator is committed. -/
  operator : Option Operator := none

structure Library where
  settings : Settings
  /-- The device that all operators of the library are built for. -/
  device : Device
  slots : Array Slot := #[]
  /-- The handle of every name. -/
  index : Std.HashMap String Handle := ∅

namespace Library

/-- The empty library for the device that the settings describe. -/
def ofSettings (settings : Settings) : Library where
  settings
  device := .ofSettings settings

/-- The handle under which a name was reserved. -/
def lookup (lib : Library) (name : String) : Option Handle :=
  lib.index[name]?

/-- A committed operator. -/
def operator? (lib : Library) (h : Handle) : Option Operator :=
  lib.slots[h]?.bind (·.operator)

/-- The committed operator of that name. -/
def find? (lib : Library) (name : String) : Option (Handle × Operator) := do
  let h ← lib.lookup name
  let op ← lib.operator? h
  return (h, op)

/-- The committed operators in the order of their creation. -/
def operators (lib : Library) : List Operator :=
  lib.slots.toList.filterMap (·.operator)

/-- The interface of a committed operator. -/
def interface (lib : Library) (h : Handle) : Except Fault Interface :=
  match lib.slots[h]? with
  | none => .error (.unfinishedSubOperator (Handle.text h))
  | some slot =>
    match slot.operator.bind (·.interface?) with
    | none => .error (.unfinishedSubOperator slot.name)
    | some itf => .ok itf

/-- Reserves a name and hands out an operator for it. -/
def create (lib : Library) (name : String) : Except Failure (Operator × Library) :=
  if lib.index.contains name then
    .error ⟨name, "create_operator(" ++ Text.quoted name ++ ")", .duplicateOperator name⟩
  else
    let handle := lib.slots.size
    .ok ({ handle, name
           timeline := { period := lib.device.period, pipelined := lib.device.pipelined } },
      { lib with
        slots := lib.slots.push { name }
        index := lib.index.insert name handle })

/-- Puts a finished operator into the slot that was reserved for it. -/
def commit (lib : Library) (op : Operator) : Except Failure (Handle × Library) :=
  let fail fault := .error ⟨op.name, "commit()", fault⟩
  if ¬ op.isFinished then fail (.unfinishedSubOperator op.name)
  else
    match lib.slots[op.handle]? with
    | none => fail (.duplicateOperator op.name)
    | some slot =>
      if slot.operator.isNone ∧ slot.name = op.name then
        .ok (op.handle,
          { lib with slots := lib.slots.setIfInBounds op.handle { slot with operator := some op } })
      else fail (.duplicateOperator op.name)

end Library

end Retime

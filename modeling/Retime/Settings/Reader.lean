import Retime.Decimal.Scaled
import Retime.Json.Parser
import Retime.Settings.Basic

/-! # Reading settings

Settings are read from a JSON object, in which every key may be left out, or from
an array of the values in the order of the keys, whose tail may be left out. What is
left out has its default; a key that is unknown or given twice is refused.
-/

namespace Retime

namespace Json

/-- The fields of a record with the given keys. -/
def record? (keys : List String) : Json → Option (String → Option Json)
  | object members =>
    let given := members.map (·.1)
    if (∀ key ∈ given, key ∈ keys) ∧ given.Nodup then some fun key => members.lookup key
    else none
  | array items =>
    if items.length ≤ keys.length then some fun key => (keys.zip items).lookup key
    else none
  | _ => none

def float? : Json → Option Float
  | number n => n.scaled?
  | _ => none

/-- A natural number of 32 bits that is written without sign, point or exponent. -/
def word? : Json → Option Nat
  | number n =>
    let value := Numeral.digitsValue n.whole
    if n.IsInteger ∧ ¬ n.negative ∧ value < Nat.pow 2 32 then some value else none
  | _ => none

def bool? : Json → Option Bool
  | bool b => some b
  | _ => none

/-- The value of a field, or its default if the field is left out. -/
def fieldOr {α : Type} (default : α) (read : Json → Option α) : Option Json → Option α
  | some j => read j
  | none => some default

end Json

namespace DeviceDelays

def ofJson? (j : Json) : Option DeviceDelays := do
  let d : DeviceDelays := {}
  let field ← j.record? (d.named.map (·.1) ++ ["lut_inputs"])
  return {
    lut := ← Json.fieldOr d.lut Json.float? (field "lut_delay_ns")
    adderBase := ← Json.fieldOr d.adderBase Json.float? (field "adder_base_ns")
    carryPerBit := ← Json.fieldOr d.carryPerBit Json.float? (field "carry_per_bit_ns")
    localWire := ← Json.fieldOr d.localWire Json.float? (field "local_wire_delay_ns")
    perDoubling := ← Json.fieldOr d.perDoubling Json.float? (field "fanout_delay_ns")
    lutInputs := ← Json.fieldOr d.lutInputs Json.word? (field "lut_inputs") }

end DeviceDelays

namespace Settings

def ofJson? (j : Json) : Option Settings := do
  let s : Settings := {}
  let field ← j.record? ["frequency_mhz", "pipelined", "target"]
  return {
    frequencyMhz := ← Json.fieldOr s.frequencyMhz Json.float? (field "frequency_mhz")
    pipelined := ← Json.fieldOr s.pipelined Json.bool? (field "pipelined")
    delays := ← Json.fieldOr s.delays DeviceDelays.ofJson? (field "target") }

/-- The text of a file with that content. -/
def textOf (content : Except FileError ByteArray) : Except FileError String := do
  match String.fromUTF8? (← content) with
  | some text => .ok text
  | none => .error .notText

/-- The settings in a file, given what reading it came to. -/
def load (content : Except FileError ByteArray) : Except SettingsError Settings :=
  match textOf content with
  | .error e => .error (.unreadable e)
  | .ok text =>
    match (Json.parse? text).bind ofJson? with
    | none => .error .malformed
    | some s => s.check.map fun _ => s

end Settings

end Retime

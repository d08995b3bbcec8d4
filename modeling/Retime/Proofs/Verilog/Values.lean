import Mathlib.Algebra.Group.Nat.Defs
import Retime.Proofs.Verilog.Reading

/-! # Values of expressions

Expressions have unsigned values. Operands are extended to the size of their context; in an
assignment that is the larger one of the widths of its target and its expression. Sums,
products and shifts are cut off at that size. The parts of a concatenation have contexts of
their own. Without a size nothing is cut off.
-/

namespace Retime.Verilog

/-- A net and what it holds. -/
structure Net where
  name : String
  width : Nat
  value : Nat
deriving DecidableEq, Repr

/-- The net of that name. -/
def net? (nets : List Net) (name : String) : Option Net :=
  nets.find? (·.name = name)

/-- What is left of a value in that many bits. -/
def cut : Option Nat → Nat → Nat
  | none, v => v
  | some size, v => v % 2 ^ size

/-- The bits of a net from `high` down to `low`, if it has them. -/
def bits? (nets : List Net) (name : String) (high low : Nat) : Option Nat := do
  let net ← net? nets name
  if low ≤ high ∧ high < net.width then some (net.value / 2 ^ low % 2 ^ (high - low + 1)) else none

namespace Expr

mutual

/-- The width that an expression has by itself. -/
def width? (nets : List Net) : Expr → Option Nat
  | ident name => (net? nets name).map (·.width)
  | zero width => some width
  | slice name high low => (bits? nets name high low).map fun _ => high - low + 1
  | bit name position => (bits? nets name position position).map fun _ => 1
  | not e => width? nets e
  | add a b => do return max (← width? nets a) (← width? nets b)
  | mul a b => do return max (← width? nets a) (← width? nets b)
  | shiftLeft e _ => width? nets e
  | concat parts => widths? nets parts

/-- The width of a concatenation. -/
def widths? (nets : List Net) : List Expr → Option Nat
  | [] => some 0
  | e :: es => do return (← width? nets e) + (← widths? nets es)

end

mutual

/-- The value of an expression in a context of that size. -/
def value? (nets : List Net) : Option Nat → Expr → Option Nat
  | size, ident name => (net? nets name).map fun net => cut size net.value
  | _, zero _ => some 0
  | size, slice name high low => (bits? nets name high low).map (cut size)
  | size, bit name position => (bits? nets name position position).map (cut size)
  | size, not e => do
    let size ← size
    let v ← value? nets (some size) e
    return 2 ^ size - 1 - v
  | size, add a b => do return cut size ((← value? nets size a) + (← value? nets size b))
  | size, mul a b => do return cut size ((← value? nets size a) * (← value? nets size b))
  | size, shiftLeft e places => do return cut size ((← value? nets size e) * 2 ^ places)
  | size, concat parts => (joined? nets parts).map (cut size)

/-- The value of a concatenation. -/
def joined? (nets : List Net) : List Expr → Option Nat
  | [] => some 0
  | e :: es => do
    let width ← width? nets e
    let v ← value? nets (some width) e
    return v * 2 ^ (← widths? nets es) + (← joined? nets es)

end

/-- What a net of that width holds when the expression is assigned to it. -/
def assigned? (nets : List Net) (width : Nat) (e : Expr) : Option Nat := do
  let own ← e.width? nets
  let v ← e.value? nets (some (max width own))
  return v % 2 ^ width

variable {nets : List Net} {size width own v : Nat}

theorem width?_not (e : Expr) : (not e).width? nets = e.width? nets := by
  rw [width?]

theorem widths?_cons {e : Expr} {es : List Expr} {rest : Nat} (hown : e.width? nets = some own)
    (hrest : widths? nets es = some rest) : widths? nets (e :: es) = some (own + rest) := by
  simp [widths?, hown, hrest]

theorem joined?_cons {e : Expr} {es : List Expr} {rest w : Nat} (hown : e.width? nets = some own)
    (hvalue : e.value? nets (some own) = some v) (hrest : widths? nets es = some rest)
    (hjoined : joined? nets es = some w) :
    joined? nets (e :: es) = some (v * 2 ^ rest + w) := by
  simp [joined?, hown, hvalue, hrest, hjoined]

/-- Nothing is lost by a size but what is beyond it. -/
theorem value?_some : ∀ {e : Expr} {v : Nat}, e.value? nets none = some v →
    e.value? nets (some size) = some (v % 2 ^ size)
  | ident name, v, h => by
      obtain ⟨net, hnet, rfl⟩ := Option.map_eq_some_iff.mp h
      simp [value?, hnet, cut]
  | zero _, v, h => by
      obtain rfl : 0 = v := by simpa [value?] using h
      simp [value?]
  | slice name high low, v, h => by
      obtain ⟨b, hb, rfl⟩ := Option.map_eq_some_iff.mp h
      simp [value?, hb, cut]
  | bit name position, v, h => by
      obtain ⟨b, hb, rfl⟩ := Option.map_eq_some_iff.mp h
      simp [value?, hb, cut]
  | not e, v, h => by simp [value?] at h
  | add a b, v, h => by
      simp only [value?, Option.bind_eq_bind, Option.pure_def, Option.bind_eq_some_iff,
        Option.some.injEq, cut] at h ⊢
      obtain ⟨va, ha, vb, hb, rfl⟩ := h
      exact ⟨_, value?_some ha, _, value?_some hb, (Nat.add_mod va vb _).symm⟩
  | mul a b, v, h => by
      simp only [value?, Option.bind_eq_bind, Option.pure_def, Option.bind_eq_some_iff,
        Option.some.injEq, cut] at h ⊢
      obtain ⟨va, ha, vb, hb, rfl⟩ := h
      exact ⟨_, value?_some ha, _, value?_some hb, (Nat.mul_mod va vb _).symm⟩
  | shiftLeft e places, v, h => by
      simp only [value?, Option.bind_eq_bind, Option.pure_def, Option.bind_eq_some_iff,
        Option.some.injEq, cut] at h ⊢
      obtain ⟨ve, he, rfl⟩ := h
      exact ⟨_, value?_some he, Nat.mod_mul_mod ve _ _⟩
  | concat parts, v, h => by
      obtain ⟨b, hb, rfl⟩ := Option.map_eq_some_iff.mp h
      simp [value?, hb, cut]

/-- What is assigned is the value, as far as the target holds it. -/
theorem assigned?_of_value? {e : Expr} (hown : e.width? nets = some own)
    (hvalue : e.value? nets none = some v) : e.assigned? nets width = some (v % 2 ^ width) := by
  have hle : width ≤ max width own := Nat.le_max_left _ _
  simp [assigned?, hown, value?_some hvalue, Nat.mod_mod_of_dvd _ (Nat.pow_dvd_pow 2 hle)]

end Expr

/-! ## Nets of a list -/

/-- The net of that name has that width and value. -/
def Holds (nets : List Net) (name : String) (width value : Nat) : Prop :=
  net? nets name = some ⟨name, width, value⟩

variable {nets nets' : List Net} {name : String} {width value : Nat}

theorem Holds.mono (h : Holds nets name width value) (hbegins : nets <+: nets') :
    Holds nets' name width value := by
  obtain ⟨more, rfl⟩ := hbegins
  unfold Holds net? at h ⊢
  rw [List.find?_append, h, Option.some_or]

theorem holds_new (hfree : net? nets name = none) :
    Holds (nets ++ [⟨name, width, value⟩]) name width value := by
  unfold Holds net? at *
  simp [List.find?_append, hfree]

theorem Holds.bits? (h : Holds nets name width value) {high low : Nat} (hle : low ≤ high)
    (hlt : high < width) :
    bits? nets name high low = some (value / 2 ^ low % 2 ^ (high - low + 1)) := by
  simp [Verilog.bits?, show net? nets name = _ from h, hle, hlt]

end Retime.Verilog

import Retime.Verilog.Expr
import Retime.Width

/-! # References of expressions

What an expression refers to: the names in it, and the bits of them that it selects. A net of one
bit is declared as a scalar, of which nothing can be selected; of a vector, only the bits that it
has.
-/

namespace Retime

/-- The range can be selected of a net of that width. -/
structure BitRange.Selectable (r : BitRange) (width : Nat) : Prop where
  vector : 1 < width
  ordered : r.low ≤ r.high
  within : r.high < width

instance (r : BitRange) (width : Nat) : Decidable (r.Selectable width) :=
  decidable_of_iff (1 < width ∧ r.low ≤ r.high ∧ r.high < width)
    ⟨fun ⟨h₁, h₂, h₃⟩ => ⟨h₁, h₂, h₃⟩, fun ⟨h₁, h₂, h₃⟩ => ⟨h₁, h₂, h₃⟩⟩

namespace Verilog

/-- A name in an expression, with the bits that are selected of it, if it is a select. -/
structure Reference where
  name : String
  range : Option BitRange
deriving DecidableEq, Repr

namespace Expr

mutual

/-- The references of an expression, from left to right. -/
def references : Expr → List Reference
  | ident name => [⟨name, none⟩]
  | zero _ => []
  | slice name high low => [⟨name, some ⟨high, low⟩⟩]
  | bit name position => [⟨name, some ⟨position, position⟩⟩]
  | not e => e.references
  | add a b => a.references ++ b.references
  | mul a b => a.references ++ b.references
  | shiftLeft e _ => e.references
  | concat parts => referencesOf parts

def referencesOf : List Expr → List Reference
  | [] => []
  | e :: es => e.references ++ referencesOf es

end

end Expr

/-- What is referred to has a width, and its bits can be selected. -/
def Reference.Legal (declared : String → Nat → Prop) (r : Reference) : Prop :=
  ∃ width, declared r.name width ∧ ∀ range, r.range = some range → range.Selectable width

/-- Everything that the expression refers to is declared, and every select in it is legal. -/
def Expr.Legal (declared : String → Nat → Prop) (e : Expr) : Prop :=
  ∀ r ∈ e.references, r.Legal declared

variable {declared declared' : String → Nat → Prop} {a b e : Expr} {name : String} {width : Nat}

theorem Expr.Legal.mono (h : e.Legal declared)
    (hdeclared : ∀ name width, declared name width → declared' name width) :
    e.Legal declared' := by
  intro r hr
  obtain ⟨width, hwidth, hrange⟩ := h r hr
  exact ⟨width, hdeclared _ _ hwidth, hrange⟩

namespace Expr

theorem mem_referencesOf {parts : List Expr} {r : Reference} :
    r ∈ referencesOf parts ↔ ∃ e ∈ parts, r ∈ e.references := by
  induction parts with
  | nil => simp [referencesOf]
  | cons e parts ih => simp [referencesOf, ih]

theorem legal_ident (h : declared name width) : (ident name).Legal declared := by
  intro r hr
  obtain rfl := List.mem_singleton.mp hr
  exact ⟨width, h, by simp⟩

theorem legal_zero (width : Nat) : (zero width).Legal declared := by
  intro r hr
  cases hr

theorem legal_slice (h : declared name width) {high low : Nat}
    (hrange : BitRange.Selectable ⟨high, low⟩ width) : (slice name high low).Legal declared := by
  intro r hr
  obtain rfl := List.mem_singleton.mp hr
  exact ⟨width, h, fun _ hsome => Option.some.inj hsome ▸ hrange⟩

theorem legal_bit (h : declared name width) {position : Nat}
    (hrange : BitRange.Selectable ⟨position, position⟩ width) :
    (bit name position).Legal declared := by
  intro r hr
  obtain rfl := List.mem_singleton.mp hr
  exact ⟨width, h, fun _ hsome => Option.some.inj hsome ▸ hrange⟩

theorem Legal.not (h : e.Legal declared) : e.not.Legal declared :=
  h

theorem Legal.shiftLeft (h : e.Legal declared) (places : Nat) :
    (e.shiftLeft places).Legal declared :=
  h

theorem Legal.add (ha : a.Legal declared) (hb : b.Legal declared) :
    (a.add b).Legal declared :=
  fun r hr => (List.mem_append.mp hr).elim (ha r) (hb r)

theorem Legal.mul (ha : a.Legal declared) (hb : b.Legal declared) :
    (a.mul b).Legal declared :=
  fun r hr => (List.mem_append.mp hr).elim (ha r) (hb r)

theorem legal_concat {parts : List Expr} (h : ∀ e ∈ parts, e.Legal declared) :
    (concat parts).Legal declared := by
  intro r hr
  obtain ⟨e, he, hr⟩ := mem_referencesOf.mp hr
  exact h e he r hr

end Expr

end Verilog

end Retime

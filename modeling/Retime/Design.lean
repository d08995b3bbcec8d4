import Retime.Operator.Call

/-! # Designs

A design describes an operator call by call. What comes next may depend on the
answers, and other operators may be generated on the way. A `Kind` names what a
design builds for a device; `Build` is the notation in which designs are written.
-/

namespace Retime

/-- The description of an operator from some point on. -/
inductive Design where
  | done
  | call (c : Call) (next : Option String → Design)
  /-- Generates another operator in the same library, by its name and design. -/
  | generate (name : String) (body : Design) (next : Handle → Design)
  /-- Asks for the handle of a name in the library. -/
  | lookup (name : String) (next : Option Handle → Design)

/-- A family of operators. -/
structure Kind where
  /-- What is built under this name is the same everywhere. -/
  name : String
  design : Device → Design

/-- A piece of a design with an answer of type `α`, given by how it goes on. -/
def Build (α : Type) : Type :=
  (α → Design) → Design

namespace Build

variable {α β : Type}

instance : Monad Build where
  pure a := fun next => next a
  bind m f := fun next => m fun a => f a next

/-- The design that consists of this piece. -/
def design (m : Build Unit) : Design :=
  m fun _ => .done

/-- A call that asks for nothing. -/
def call (c : Call) : Build Unit := fun next =>
  .call c fun _ => next ()

/-- A call that asks for an identifier. -/
def ask (c : Call) : Build String := fun next =>
  .call c fun answer => next (answer.getD "")

/-- The handle of another operator, which is generated if need be. -/
def generate (kind : Kind) (device : Device) : Build Handle := fun next =>
  .generate kind.name (kind.design device) next

def input (name : String) (width : Nat) : Build Unit :=
  call (.input name (.vector width))

def declare (name : String) (width : Nat) (expr : String) : Build Unit :=
  call (.declare name (.vector width) .combinational expr)

def output (name : String) (width : Nat) (expr : String) : Build Unit :=
  call (.output name (.vector width) expr)

def consume (name : String) : Build String :=
  ask (.consume name)

def accrue (delay : Float) : Build Unit :=
  call (.accrue delay)

/-- Goes through a list of items and collects the answers. -/
def forEach (f : α → Build β) : List α → Build (List β)
  | [] => pure []
  | a :: as => do
    let b ← f a
    let bs ← forEach f as
    return b :: bs

end Build

end Retime

import Retime.Design

/-! # Generation

Generating a kind yields the committed operator of its name, or runs its design on
a new operator, which is then finished and committed. The first failure ends it;
names that were reserved on the way stay reserved, and operators that were
committed stay committed.
-/

namespace Retime

/-- An operator under construction and the library it is built for. -/
structure Site where
  library : Library
  operator : Operator

namespace Site

/-- Performs a call on the operator. -/
def perform (c : Call) : Action Failure Site (Option String) := do
  let site ← Action.get
  (Operator.perform site.library c).zoom (·.operator) fun site operator =>
    { site with operator }

/-- Acts on the library alone. -/
def onLibrary {α : Type} (m : Action Failure Library α) : Action Failure Site α :=
  m.zoom (·.library) fun site library => { site with library }

end Site

namespace Library

/-- Builds a new operator by an action at its site, and commits it. -/
def build (name : String) (describe : Action Failure Site Unit) :
    Action Failure Library Handle := fun lib =>
  match lib.create name with
  | .error e => { result := .error e, state := lib }
  | .ok (operator, library) =>
    let o := (do describe; let _ ← Site.perform .finish) { library, operator }
    match o.result.bind fun _ => o.state.library.commit o.state.operator with
    | .error e => { result := .error e, state := o.state.library, events := o.events }
    | .ok (h, library) => { result := .ok h, state := library, events := o.events }

/-- The committed operator of that name, or else a new one. -/
def obtain (name : String) (describe : Action Failure Site Unit) :
    Action Failure Library Handle := do
  match (← Action.get).find? name with
  | some (h, _) =>
    Action.report (.reused name)
    return h
  | none => build name describe

/-- Runs a design at its site. -/
def run : Design → Action Failure Site Unit
  | .done => pure ()
  | .call c next => do
    let answer ← Site.perform c
    run (next answer)
  | .generate name body next => do
    let h ← Site.onLibrary (obtain name (run body))
    run (next h)
  | .lookup name next => do
    let site ← Action.get
    run (next (site.library.lookup name))

/-- The operator of a kind. -/
def generate (kind : Kind) : Action Failure Library Handle := do
  let lib ← Action.get
  obtain kind.name (run (kind.design lib.device))

end Library

end Retime

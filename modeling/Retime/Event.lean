import Retime.Decimal.Fixed

/-! # Events

The scheduling decisions that are reported while operators are built. An event is
data; its level and wording are given here alone.
-/

namespace Retime

inductive Level where
  | debug
  | info
  | warn
deriving DecidableEq, Repr

def Level.text : Level → String
  | debug => "DEBUG"
  | info => "INFO"
  | warn => "WARN"

/-- Something worth reporting. -/
inductive Event where
  /-- A stage of a delay line was created for the signal `root`. -/
  | stage (name root : String) (cycle : Nat)
  /-- Work did not fit and moved to a later cycle. -/
  | cut (operator : String) (start stop : Nat) (delay : Float)
  /-- An operator was placed inside another one. -/
  | placed (operator inst sub : String) (inputCycle outputCycle : Nat)
  /-- An output of an instance is bound and never read. -/
  | unused (operator formal inst : String)
  /-- An operator was finished. -/
  | finished (operator : String) (depth registers instances : Nat)
  /-- An operator of that name was there already. -/
  | reused (operator : String)
  /-- The clock that a run starts with. -/
  | clock (period : Float) (pipelined : Bool)

namespace Event

def level : Event → Level
  | unused .. => .warn
  | finished .. => .info
  | _ => .debug

def text : Event → String
  | stage name root cycle => s!"delay stage {name} for '{root}' (cycle {cycle})"
  | cut operator start stop delay =>
    s!"{operator}: implicit cut {start} -> {stop} for " ++ Fixed.text 3 delay ++ "ns"
  | placed operator inst sub inputCycle outputCycle =>
    s!"{operator}: instance {inst} of {sub} at cycle {inputCycle}, outputs at cycle {outputCycle}"
  | unused operator formal inst =>
    s!"{operator}: output {formal} of instance {inst} is never used"
  | finished operator depth registers instances =>
    s!"{operator}: pipeline depth {depth}, {registers} registers, {instances} instances"
  | reused operator => s!"reusing operator {operator}"
  | clock period pipelined =>
    "period " ++ Fixed.text 3 period ++ s!"ns, pipelined = {pipelined}"

/-- The line of a log that shows the event. -/
def line (e : Event) : String :=
  e.level.text ++ " " ++ e.text

end Event

end Retime

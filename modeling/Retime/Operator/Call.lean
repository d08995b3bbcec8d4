import Retime.Operator.Finish
import Retime.Operator.Instantiate

/-! # Calls

The calls that describe an operator. Each of them is refused once the operator is
finished; `Operator.perform` attributes what fails to the operator and the call.
-/

namespace Retime

inductive Call where
  | input (name : String) (width : Width)
  /-- Declares an internal value; the clocking is that of the registers behind it. -/
  | declare (name : String) (width : Width) (clocking : Clocking) (expr : String)
  | output (name : String) (width : Width) (expr : String)
  /-- Asks for the identifier that carries a value in the current cycle. -/
  | consume (name : String)
  /-- Asks for one field of a floating-point value in the current cycle. -/
  | consumeField (name : String) (field : FloatField)
  | setCycle (cycle : Nat)
  | advance
  /-- Accounts for work of a length. -/
  | accrue (delay : Float)
  | setCriticalPath (delay : Float)
  /-- Moves to the cycle of a signal. -/
  | jump (name : String)
  /-- Moves to the cycle of a signal if it is later than the current one. -/
  | join (name : String)
  | instantiate (sub : Handle) (name : String) (wiring : Wiring)
  | finish

namespace Call

/-- A call of a name. -/
def ofName (call name : String) : String :=
  s!"{call}(" ++ Text.quoted name ++ ")"

/-- The form in which a failure names a call. -/
def text : Call → String
  | input name _ => ofName "add_input" name
  | declare name _ _ _ => ofName "declare" name
  | output name _ _ => ofName "declare_output" name
  | consume name => ofName "consume" name
  | consumeField name field => "consume_field(" ++ Text.quoted name ++ s!", {field.name})"
  | setCycle cycle => s!"set_cycle({cycle})"
  | advance => "advance_cycle()"
  | accrue delay => "accrue(" ++ Fixed.text 3 delay ++ ")"
  | setCriticalPath delay => "set_critical_path(" ++ Fixed.text 3 delay ++ ")"
  | jump name => ofName "jump_to_signal" name
  | join name => ofName "join_signal" name
  | instantiate _ name _ => ofName "instantiate" name
  | finish => "finalize()"

end Call

namespace Operator

def addInput (name : String) (width : Width) : Action Fault Operator Unit := do
  let id ← declareHere name .input .combinational width .port
  Action.modify fun op => { op with inputs := op.inputs.push id }

/-- Declares an output, which leaves with the critical path as its delay. -/
def addOutput (name : String) (width : Width) (expr : String) : Action Fault Operator Unit := do
  let id ← declareHere name .output .combinational width (.expr expr)
  Action.modify fun op =>
    { op with outputs := op.outputs.push { signal := id, delay := op.timeline.criticalPath } }

/-- The name of the signal that carries the value of `name` in the current cycle. -/
def consume (name : String) : Action Fault Operator String := do
  let id ← read name (← Action.get).timeline.cycle
  return (← Action.get).flow.netlist.name id

def consumeField (name : String) (field : FloatField) : Action Fault Operator String := do
  match (← find name).width.fieldRange? field with
  | none => Action.stop (.invalidField name field)
  | some range => return range.select (← consume name)

def accrue (delay : Float) : Action Fault Operator Unit := do
  let op ← Action.get
  let (accrual, timeline) ← Action.ofExcept (op.timeline.accrue delay)
  match accrual with
  | .fitted => pure ()
  | .cut => Action.report (.cut op.name op.timeline.cycle timeline.cycle delay)
  Action.modify fun op => { op with timeline }

/-- Stops on a finished operator. -/
@[inline] def ensureOpen : Action Fault Operator Unit := do
  let op ← Action.get
  if op.isFinished then Action.stop (.operatorClosed op.name)

/-- Performs a call. Each of them makes sure that the operator is open before it looks at
anything else. -/
def dispatch (lib : Library) : Call → Action Fault Operator (Option String)
  | .input name width => do
    ensureOpen
    addInput name width
    return none
  | .declare name width clocking expr => do
    ensureOpen
    let _ ← declareHere name .internal clocking width (.expr expr)
    return none
  | .output name width expr => do
    ensureOpen
    addOutput name width expr
    return none
  | .consume name => do
    ensureOpen
    some <$> consume name
  | .consumeField name field => do
    ensureOpen
    some <$> consumeField name field
  | .setCycle cycle => do
    ensureOpen
    onTimeline fun t => .ok (t.enter cycle)
    return none
  | .advance => do
    ensureOpen
    onTimeline (·.advance)
    return none
  | .accrue delay => do
    ensureOpen
    accrue delay
    return none
  | .setCriticalPath delay => do
    ensureOpen
    onTimeline (·.setCriticalPath delay)
    return none
  | .jump name => do
    ensureOpen
    let s ← find name
    onTimeline fun t => .ok (t.jump s.cycle)
    return none
  | .join name => do
    ensureOpen
    let s ← find name
    onTimeline fun t => .ok (t.join s.cycle)
    return none
  | .instantiate sub name wiring => do
    ensureOpen
    instantiate lib sub name wiring
    return none
  | .finish => do
    ensureOpen
    finish
    return none

/-- Performs a call, and attributes what fails to the operator and the call. The answer is an
identifier if the call asks for one. -/
def perform (lib : Library) (c : Call) : Action Failure Operator (Option String) := do
  let op ← Action.get
  Action.mapError (Failure.mk op.name c.text) (dispatch lib c)

end Operator

end Retime

import Std.Data.TreeMap
import Retime.Fault

/-! # Timelines

A timeline places work in clock cycles: it holds the current cycle and the length
of the longest path of work in it, the critical path. On a pipelined timeline no
path exceeds the clock period; work that would do so moves to a later cycle.

A value may reach a cycle some time after the clock edge. Such an arrival is a
floor of its cycle: however the cycle is entered, its critical path starts there.
-/

namespace Retime

/-- The last cycle that can be counted. -/
def maxCycle : Nat := Nat.pow 2 32 - 1

/-- The cycle `offset` cycles after `cycle`. -/
def laterCycle (cycle offset : Nat) : Except Fault Nat :=
  if cycle + offset ≤ maxCycle then .ok (cycle + offset)
  else .error (.cycleOverflow cycle offset)

structure Timeline where
  /-- The clock period. -/
  period : Float
  pipelined : Bool
  /-- The current cycle. -/
  cycle : Nat := 0
  criticalPath : Float := 0
  /-- The longest path recorded in each cycle. -/
  peaks : Std.TreeMap Nat Float := ∅
  /-- The latest arrival in each cycle. -/
  floors : Std.TreeMap Nat Float := ∅

/-- Whether work stayed in its cycle. -/
inductive Accrual where
  | fitted
  | cut
deriving DecidableEq, Repr

namespace Timeline

/-- Where the critical path of a cycle starts. -/
def floor (t : Timeline) (cycle : Nat) : Float :=
  t.floors.getD cycle 0

/-- The longest path recorded in a cycle. -/
def peak (t : Timeline) (cycle : Nat) : Float :=
  t.peaks.getD cycle 0

/-- Raises the entry of a cycle, which starts at zero, to `x`. -/
def raise (m : Std.TreeMap Nat Float) (cycle : Nat) (x : Float) : Std.TreeMap Nat Float :=
  let y := m.getD cycle 0
  m.insert cycle (if y < x then x else y)

/-- Notes the critical path as a candidate for the peak of its cycle. -/
def recordPeak (t : Timeline) : Timeline :=
  { t with peaks := raise t.peaks t.cycle t.criticalPath }

/-- Sets the critical path and notes it. -/
def reach (t : Timeline) (x : Float) : Timeline :=
  { t with criticalPath := x }.recordPeak

/-- Moves to the start of a cycle. -/
def enter (t : Timeline) (cycle : Nat) : Timeline :=
  let t := { t with cycle, criticalPath := t.floor cycle }
  if 0 < t.criticalPath then t.recordPeak else t

def advance (t : Timeline) : Except Fault Timeline :=
  (laterCycle t.cycle 1).map t.enter

/-- Moves to a cycle, unless it is the current one. -/
def jump (t : Timeline) (cycle : Nat) : Timeline :=
  if cycle = t.cycle then t else t.enter cycle

/-- Moves to a cycle if it is later than the current one. -/
def join (t : Timeline) (cycle : Nat) : Timeline :=
  if t.cycle < cycle then t.enter cycle else t

/-- Whether a path of length `x` can stand in some cycle. -/
def Admits (t : Timeline) (x : Float) : Prop :=
  x.isFinite ∧ ¬ x < 0 ∧ ¬ (t.pipelined ∧ t.period < x)

instance (t : Timeline) (x : Float) : Decidable (t.Admits x) :=
  inferInstanceAs (Decidable (_ ∧ _))

/-- Records that a value reaches a cycle at time `x` after its clock edge. -/
def arrive (t : Timeline) (cycle : Nat) (x : Float) : Except Fault Timeline :=
  if t.Admits x then
    let t := { t with floors := raise t.floors cycle x }
    .ok (if cycle = t.cycle ∧ t.criticalPath < x then t.reach x else t)
  else .error (.unreachableTiming x t.period)

/-- The first cycle after `cycle` whose floor leaves room for work of length `x`. -/
def roomAfter (t : Timeline) (x : Float) (cycle : Nat) : Except Fault Nat :=
  if cycle < maxCycle then
    if t.floor (cycle + 1) + x ≤ t.period then .ok (cycle + 1)
    else t.roomAfter x (cycle + 1)
  else .error (.cycleOverflow cycle 1)
termination_by maxCycle - cycle

/-- Adds work of length `x` to the critical path. On a pipelined timeline, work
that does not fit the rest of the period goes, whole, to the next cycle with room. -/
def accrue (t : Timeline) (x : Float) : Except Fault (Accrual × Timeline) :=
  if ¬ t.Admits x then .error (.unreachableTiming x t.period)
  else if t.pipelined ∧ t.period < t.criticalPath + x then
    (t.roomAfter x t.cycle).map fun cycle =>
      let t := t.enter cycle
      (.cut, t.reach (t.criticalPath + x))
  else .ok (.fitted, t.reach (t.criticalPath + x))

/-- Sets the critical path, which is never below the floor of the cycle. At equal values
the floor is taken, so the critical path has no negative zero. -/
def setCriticalPath (t : Timeline) (x : Float) : Except Fault Timeline :=
  if t.Admits x then
    let least := t.floor t.cycle
    .ok (t.reach (if least < x then x else least))
  else .error (.unreachableTiming x t.period)

end Timeline

end Retime

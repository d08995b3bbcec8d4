import Retime.Proofs.Operator.Completed
import Retime.Proofs.Operator.Schedule
import Retime.Proofs.Retiming.Meaning

/-! # The equations of a circuit

What a behaviour of a finished operator satisfies, signal by signal: defined signals follow
their expressions, whatever belongs to a delay line follows its root, instances answer to
their inputs, and an output shows its expression in the last cycle.
-/

namespace Retime

open Operator

variable {V : Type} {I : Interpretation V} {op op' : Operator} {schedule : Schedule}
  {exposed : List ExposedOutput} {x w : String → Nat → V}

/-- An assignment that the laid out operator has for a signal holds. -/
theorem Circuit.assigned {depth : Nat} (hcircuit : Circuit I op schedule x w)
    (hlaid : LaidOut op depth exposed schedule) (hsound : op.flow.Sound) {s : Signal}
    (hs : op.flow.netlist.signal? s.id = some s) {cycle : Nat} {a : Assignment}
    (ha : assignment? depth (exposed.filterMap (·.realignment)) s = some (cycle, a))
    (clock : Nat) : w (op.flow.netlist.name a.target) clock =
      a.value.read I op.flow.netlist (w · clock) := by
  refine hcircuit.assign a (hlaid.assignments_perm.mem_iff.mpr ?_) clock
  refine List.mem_map.mpr ⟨(cycle, a), List.mem_filterMap.mpr ⟨s, ?_, ha⟩, rfl⟩
  exact hsound.lawful.mem_signals.mpr hs

theorem Circuit.expr_eq {depth : Nat} (hcircuit : Circuit I op schedule x w)
    (hlaid : LaidOut op depth exposed schedule) (hsound : op.flow.Sound) {s : Signal}
    (hs : op.flow.netlist.signal? s.id = some s) (hrole : s.role = .internal) {text : String}
    (hdriver : s.driver = .expr text) (clock : Nat) :
    w s.name clock = I.expr text (w · clock) := by
  have ha : assignment? depth (exposed.filterMap (·.realignment)) s =
      some (s.cycle, ⟨s.id, .expr text⟩) := by
    simp [assignment?, hrole, hdriver]
  rw [← Netlist.name_of_signal hs]
  exact hcircuit.assigned hlaid hsound hs ha clock

/-! ## Delay lines -/

/-- A stage follows what stands before it. -/
theorem Circuit.load_eq {depth : Nat} (hcircuit : Circuit I op schedule x w)
    (hlaid : LaidOut op depth exposed schedule) (hsound : op.flow.Sound) {s : Signal}
    (hs : op.flow.netlist.signal? s.id = some s) {r source : SignalId} {k : Nat}
    (hdriver : s.driver = .stage r (k + 1))
    (hsource : (if k = 0 then some r else (op.flow.stages r)[k - 1]?) = some source)
    (clock : Nat) : w s.name (clock + 1) = w (op.flow.netlist.name source) clock := by
  have hl : load? op.flow s = some ⟨s.id, source, s.clocking⟩ := by
    have hindex : k + 1 - 2 = k - 1 := by omega
    simp only [load?, hdriver, Nat.add_eq_right, hindex, hsource, Option.map_some]
  rw [← Netlist.name_of_signal hs]
  refine hcircuit.load ⟨s.id, source, s.clocking⟩ (hlaid.loads_perm.mem_iff.mpr ?_) clock
  exact List.mem_filterMap.mpr ⟨s, hsound.lawful.mem_signals.mpr hs, hl⟩

/-- The stage at depth `k + 1` is `k + 1` clocks behind the root. -/
theorem Circuit.stage_eq {depth : Nat} (hcircuit : Circuit I op schedule x w)
    (hlaid : LaidOut op depth exposed schedule) (hsound : op.flow.Sound) {root : Signal}
    (hroot : op.flow.netlist.signal? root.id = some root) {k : Nat} {id : SignalId}
    (hk : (op.flow.stages root.id)[k]? = some id) (clock : Nat) :
    w (op.flow.netlist.name id) (clock + (k + 1)) = w root.name clock := by
  -- each stage on the way from the root takes one clock
  induction k generalizing id with
  | zero =>
      obtain ⟨root', hroot', -, -, hs⟩ := hsound.stage hk
      obtain rfl : root = root' := Option.some.inj (hroot.symm.trans hroot')
      rw [Netlist.name_of_signal hs, ← Netlist.name_of_signal hroot]
      exact hcircuit.load_eq hlaid hsound hs rfl (if_pos rfl) clock
  | succ k ih =>
      obtain ⟨root', hroot', -, -, hs⟩ := hsound.stage hk
      obtain rfl : root = root' := Option.some.inj (hroot.symm.trans hroot')
      have hbound : k < (op.flow.stages root.id).size := by
        have hlt := (Array.getElem?_eq_some_iff.mp hk).1
        omega
      have hbefore := Array.getElem?_eq_getElem hbound
      rw [Netlist.name_of_signal hs, ← ih hbefore]
      refine hcircuit.load_eq hlaid hsound hs rfl ?_ (clock + (k + 1))
      rw [if_neg (Nat.succ_ne_zero k), Nat.add_sub_cancel]
      exact hbefore

/-- Whatever carries the value of a root in a cycle shows it that much later. -/
theorem Circuit.carries_eq {depth : Nat} (hcircuit : Circuit I op schedule x w)
    (hlaid : LaidOut op depth exposed schedule) (hsound : op.flow.Sound) {root : Signal}
    (hroot : op.flow.netlist.signal? root.id = some root) {cycle : Nat} {id : SignalId}
    (hcarries : op.flow.Carries root cycle id) (clock : Nat) :
    w (op.flow.netlist.name id) (clock + cycle) = w root.name (clock + root.cycle) := by
  rcases hcarries with ⟨rfl, rfl⟩ | ⟨k, rfl, hk⟩
  · rw [Netlist.name_of_signal hroot]
  · rw [← Nat.add_assoc]
    exact hcircuit.stage_eq hlaid hsound hroot hk (clock + root.cycle)

/-! ## Instances -/

theorem Circuit.block_eq {depth : Nat} (hcircuit : Circuit I op schedule x w)
    (hlaid : LaidOut op depth exposed schedule) (hop : op.Consistent) {i : Nat}
    {inst : Instance} (hinst : op.instances[i]? = some inst) {formal : String} {id : SignalId}
    (hout : (formal, some id) ∈ inst.outputs) (clock : Nat) :
    w (op.flow.netlist.name id) (clock + inst.interface.depth) =
      I.block inst.name formal
        (inst.inputs.map fun (f, actual) => (f, actual.read I op.flow.netlist (w · clock))) := by
  have hplaced : i ∈ schedule.slices.flatMap (·.instances) := by
    rw [hlaid.instances_perm.mem_iff, ← (hop.fits hinst).id_eq]
    refine List.mem_map_of_mem (List.mem_iff_getElem?.mpr ⟨i, ?_⟩)
    rwa [Array.getElem?_toList]
  obtain ⟨slice, hslice, hi⟩ := List.mem_flatMap.mp hplaced
  exact hcircuit.block slice hslice i hi inst hinst formal id hout clock

/-! ## Outputs -/

/-- An output that is not realigned is declared in the last cycle. -/
theorem Operator.Finished.direct (hfinished : Finished op op' schedule exposed)
    (hop' : op'.Consistent) {s : Signal} (hs : op'.flow.netlist.signal? s.id = some s)
    (hrole : s.role = .output)
    (hnone : (exposed.filterMap (·.realignment)).find? (·.output = s.id) = none) :
    s.cycle = op.exposure := by
  obtain ⟨out, hout, hid⟩ := hop'.output hs hrole
  rw [hfinished.aligned.outputs, ← Array.mem_toList_iff] at hout
  obtain ⟨e, he, hexposes⟩ := exists_right_of_forall₂ hfinished.exposes hout
  cases hexposes with
  | direct s' mem cycle_eq =>
      rw [hid, hs] at mem
      exact Option.some.inj mem ▸ cycle_eq
  | realigned s' base last mem lt held_mem carries =>
      rw [hid, hs] at mem
      obtain rfl := Option.some.inj mem
      have hin : (⟨s.id, base, last⟩ : Realignment) ∈ exposed.filterMap (·.realignment) :=
        List.mem_filterMap.mpr ⟨_, he, rfl⟩
      simpa using List.find?_eq_none.mp hnone _ hin

/-- A realigned output is held in its own cycle and carried to the last one. -/
theorem Operator.Finished.realigned (hfinished : Finished op op' schedule exposed)
    (hop' : op'.Consistent) {s : Signal} (hs : op'.flow.netlist.signal? s.id = some s)
    {r : Realignment}
    (hfind : (exposed.filterMap (·.realignment)).find? (·.output = s.id) = some r) :
    op'.flow.netlist.signal? r.base = some ⟨held s, r.base⟩ ∧
      op'.flow.Carries ⟨held s, r.base⟩ op.exposure r.last := by
  have hid : r.output = s.id := by simpa using List.find?_some hfind
  obtain ⟨e, he, hrealigned⟩ := List.mem_filterMap.mp (List.mem_of_find?_eq_some hfind)
  obtain ⟨out, -, hexposes⟩ := exists_left_of_forall₂ hfinished.exposes he
  cases hexposes with
  | direct s' mem cycle_eq => cases hrealigned
  | realigned s' base last mem lt held_mem carries =>
      obtain rfl := Option.some.inj hrealigned
      have hs' : op'.flow.netlist.signal? s'.id = some s' :=
        (hop'.flow.lawful.id_eq mem).symm ▸ mem
      dsimp only at hid
      rw [hid, hs] at hs'
      obtain rfl := Option.some.inj hs'
      exact ⟨held_mem, carries⟩

/-- In the last cycle an output shows its expression, evaluated in the cycle in which the
output was declared. -/
theorem Circuit.output_eq (hcircuit : Circuit I op' schedule x w)
    (hfinished : Finished op op' schedule exposed) (hop' : op'.Consistent) {s : Signal}
    (hs : op'.flow.netlist.signal? s.id = some s) (hrole : s.role = .output) {text : String}
    (hdriver : s.driver = .expr text) (t : Nat) :
    w s.name (t + schedule.depth) = I.expr text (w · (t + s.cycle)) := by
  have hlaid := laidOut hfinished.layOut
  have hsound := hop'.flow
  rw [hlaid.depth_eq]
  cases hfind : (exposed.filterMap (·.realignment)).find? (·.output = s.id) with
  | none =>
      have ha : assignment? op.exposure (exposed.filterMap (·.realignment)) s =
          some (s.cycle, ⟨s.id, .expr text⟩) := by
        simp only [assignment?, hrole, hdriver, hfind]
      rw [← hfinished.direct hop' hs hrole hfind, ← Netlist.name_of_signal hs]
      exact hcircuit.assigned hlaid hsound hs ha (t + s.cycle)
  | some r =>
      obtain ⟨hheld, hcarries⟩ := hfinished.realigned hop' hs hfind
      have ha : assignment? op.exposure (exposed.filterMap (·.realignment)) s =
          some (op.exposure, ⟨s.id, .signal r.last⟩) := by
        simp only [assignment?, hrole, hdriver, hfind]
      calc
        w s.name (t + op.exposure) = w (op'.flow.netlist.name r.last) (t + op.exposure) := by
          rw [← Netlist.name_of_signal hs]
          exact hcircuit.assigned hlaid hsound hs ha (t + op.exposure)
        _ = w (held s).name (t + s.cycle) :=
          hcircuit.carries_eq hlaid hsound hheld hcarries t
        _ = I.expr text (w · (t + s.cycle)) :=
          hcircuit.expr_eq hlaid hsound (s := ⟨held s, r.base⟩) hheld rfl hdriver (t + s.cycle)

/-- What a behaviour satisfies, said of the signals and instances without the schedule. -/
structure Equations (I : Interpretation V) (op : Operator) (x w : String → Nat → V) : Prop where
  input : ∀ {s}, op.flow.netlist.signal? s.id = some s → s.role = .input → ∀ clock,
    w s.name clock = x s.name clock
  expr : ∀ {s text}, op.flow.netlist.signal? s.id = some s → s.role = .internal →
    s.driver = .expr text → ∀ clock, w s.name clock = I.expr text (w · clock)
  carries : ∀ {root cycle id}, op.flow.netlist.signal? root.id = some root →
    op.flow.Carries root cycle id → ∀ clock,
      w (op.flow.netlist.name id) (clock + cycle) = w root.name (clock + root.cycle)
  block : ∀ {i : Nat} {inst formal id}, op.instances[i]? = some inst →
    (formal, some id) ∈ inst.outputs → ∀ clock,
      w (op.flow.netlist.name id) (clock + inst.interface.depth) =
        I.block inst.name formal
          (inst.inputs.map fun (f, actual) => (f, actual.read I op.flow.netlist (w · clock)))

theorem Circuit.equations (hcircuit : Circuit I op' schedule x w)
    (hfinished : Finished op op' schedule exposed) (hop' : op'.Consistent) :
    Equations I op' x w where
  input hs hrole clock := by
    rw [← Netlist.name_of_signal hs]
    exact hcircuit.input _ (hop'.input hs hrole) clock
  expr hs hrole hdriver := hcircuit.expr_eq (laidOut hfinished.layOut) hop'.flow hs hrole hdriver
  carries hroot hcarries :=
    hcircuit.carries_eq (laidOut hfinished.layOut) hop'.flow hroot hcarries
  block hinst hout := hcircuit.block_eq (laidOut hfinished.layOut) hop' hinst hout

end Retime

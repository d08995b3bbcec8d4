import Retime.Proofs.Operator.Completed

/-! # The lists of ports

Ports are declared by the calls for them only; all else that is declared, by calls that fail
included, is internal. So whatever was called before, an operator lists its inputs and outputs
as they were declared.
-/

namespace Retime

open Retime.Action

/-- The signals of a role, in the order of their declaration. -/
def Netlist.withRole (n : Netlist) (role : Role) : List SignalId :=
  (n.signals.toList.filter (·.role = role)).map (·.id)

theorem Netlist.withRole_add (n : Netlist) (decl : Declaration) (role : Role) :
    (n.add decl).withRole role = n.withRole role ++ if decl.role = role then [n.size] else [] := by
  unfold withRole add
  rw [Array.toList_push, List.filter_append, List.map_append]
  congr 1
  split
  next hrole => simp [hrole]
  next hrole => simp [hrole]

namespace Dataflow

/-- The ports are those of `n`. -/
def SamePorts (n : Netlist) (d : Dataflow) : Prop :=
  ∀ role, role ≠ .internal → d.netlist.withRole role = n.withRole role

variable {n : Netlist}

theorem keeps_declare_internal {decl : Declaration} (hrole : decl.role = .internal) :
    Keeps (SamePorts n) (declare decl) := by
  refine fun d hd => wp_declare.mpr ⟨fun _ => hd, fun _ role hne => ?_⟩
  have hother : decl.role ≠ role := hrole.trans_ne hne.symm
  show (d.netlist.add decl).withRole role = _
  rw [Netlist.withRole_add, if_neg hother, List.append_nil, hd role hne]

theorem keeps_addStages_ports (root : Signal) (stem : String) (count depth : Nat) :
    Keeps (SamePorts n) (addStages root stem count depth) := by
  induction count generalizing depth with
  | zero => exact keeps_pure ()
  | succ count ih =>
      have hstage : Keeps (SamePorts n) (addStage root stem depth) :=
        keeps_bind (keeps_declare_internal rfl) fun id =>
          keeps_bind (keeps_report _) fun _ => keeps_modify fun _ hd => hd
      exact keeps_bind hstage fun _ => ih (depth + 1)

theorem keeps_resolve_ports (s : Signal) (cycle : Nat) :
    Keeps (SamePorts n) (resolve s cycle) := by
  refine keeps_ite (keeps_stop _) (keeps_ite (keeps_pure _) (keeps_bind keeps_get fun d => ?_))
  dsimp only
  split
  · exact keeps_pure _
  · refine keeps_bind (keeps_addStages_ports _ _ _ _) fun _ => keeps_bind keeps_get fun d' => ?_
    exact keeps_bind (keeps_modify fun _ hd => hd) fun _ => keeps_pure _

end Dataflow

namespace Operator

open Dataflow

/-- The inputs and the outputs are the signals of these roles, in the order of their
declaration. -/
structure PortsListed (op : Operator) : Prop where
  inputs : op.inputs.toList = op.flow.netlist.withRole .input
  outputs : op.outputs.toList.map (·.signal) = op.flow.netlist.withRole .output

/-! ## Calls for no port -/

section Keeps

variable {n : Netlist} {op op' : Operator} {lib : Library}

/-- The ports of the operator are those of `n`. -/
abbrev HasPorts (n : Netlist) (op : Operator) : Prop :=
  op.flow.SamePorts n

theorem keeps_onFlow_ports {α : Type} {m : Action Fault Dataflow α} (h : Keeps (SamePorts n) m) :
    Keeps (HasPorts n) (onFlow m) :=
  fun op hop => wp_onFlow.mpr (h op.flow hop)

theorem keeps_onTimeline_ports (f : Timeline → Except Fault Timeline) :
    Keeps (HasPorts n) (onTimeline f) :=
  fun _ hop => wp_onTimeline.mpr ⟨fun _ _ => hop, fun _ _ => hop⟩

theorem keeps_read_ports (name : String) (cycle : Nat) : Keeps (HasPorts n) (read name cycle) := by
  refine keeps_bind (keeps_find name) fun s => keeps_ite (keeps_stop _) ?_
  refine keeps_bind (keeps_onFlow_ports (keeps_resolve_ports s cycle)) fun id => ?_
  exact keeps_bind (keeps_modify fun _ hop => hop) fun _ => keeps_pure id

theorem keeps_consume_ports (name : String) : Keeps (HasPorts n) (consume name) := by
  refine keeps_bind keeps_get fun op => keeps_bind (keeps_read_ports name _) fun id => ?_
  exact keeps_bind keeps_get fun _ => keeps_pure _

theorem keeps_connectInput_ports (itf : Interface) (wiring : Wiring) (cycle : Nat) (p : Port) :
    Keeps (HasPorts n) (connectInput itf wiring cycle p) := by
  unfold connectInput
  split
  · exact keeps_stop _
  · exact keeps_pure _
  next name _ =>
    refine keeps_bind (keeps_find name) fun s => keeps_ite (keeps_stop _) ?_
    exact keeps_bind (keeps_read_ports name cycle) fun _ => keeps_pure _

theorem keeps_connectOutput_ports (wiring : Wiring) (id cycle : Nat) (p : Port) :
    Keeps (HasPorts n) (connectOutput wiring id cycle p) := by
  unfold connectOutput
  split
  · exact keeps_pure _
  · refine keeps_bind (keeps_onFlow_ports (keeps_declare_internal rfl)) fun signal => ?_
    exact keeps_bind (keeps_onTimeline_ports _) fun _ => keeps_pure _

theorem keeps_expose_ports (depth : Nat) (out : OutputPort) :
    Keeps (HasPorts n) (expose depth out) := by
  refine keeps_bind keeps_get fun op => ?_
  split
  · exact keeps_pure _
  next s _ =>
    have hcarry : Keeps (SamePorts n) (carry s depth) :=
      keeps_bind (keeps_declare_internal rfl) fun base =>
        keeps_bind (keeps_modify fun _ hd => hd) fun _ =>
          keeps_bind (keeps_resolve_ports _ depth) fun last => keeps_pure (base, last)
    exact keeps_ite (keeps_pure _) (keeps_bind (keeps_onFlow_ports hcarry) fun _ => keeps_pure _)

theorem keeps_instantiate_ports (sub : Handle) (name : String) (wiring : Wiring) :
    Keeps (HasPorts n) (instantiate lib sub name wiring) := by
  refine keeps_bind keeps_get fun op => keeps_ite (keeps_stop _) ?_
  refine keeps_bind (keeps_ofExcept _) fun itf => keeps_bind (keeps_ofExcept _) fun _ => ?_
  refine keeps_bind (keeps_ofExcept _) fun outputCycle => ?_
  refine keeps_bind (keeps_forEach fun p _ => keeps_connectInput_ports itf wiring _ p) fun _ => ?_
  refine keeps_bind (keeps_forEach fun p _ => keeps_connectOutput_ports wiring _ _ p) fun _ => ?_
  exact keeps_bind (keeps_report _) fun _ => keeps_modify fun _ hop => hop

theorem keeps_finish_ports : Keeps (HasPorts n) finish := by
  refine keeps_bind keeps_get fun op => keeps_bind keeps_get fun _ => ?_
  refine keeps_bind (keeps_forEach fun out _ => keeps_expose_ports _ out) fun outputs => ?_
  refine keeps_bind keeps_get fun op' => keeps_bind (keeps_ofExcept _) fun schedule => ?_
  refine keeps_bind (keeps_forEach fun e _ => keeps_report e) fun _ => ?_
  exact keeps_bind (keeps_report _) fun _ => keeps_modify fun _ hop => hop

end Keeps

/-! ## All calls -/

/-- A call that declares a port. -/
inductive ForPort : Call → Prop where
  | input (name : String) (width : Width) : ForPort (.input name width)
  | output (name : String) (width : Width) (expr : String) : ForPort (.output name width expr)

variable {n : Netlist} {op op' : Operator} {c : Call}

theorem keeps_execute_ports (lib : Library) (hc : ¬ ForPort c) :
    Keeps (HasPorts n) (execute lib c) := by
  cases c with
  | input name width => exact absurd (.input name width) hc
  | output name width expr => exact absurd (.output name width expr) hc
  | declare name width clocking expr =>
      refine keeps_bind (keeps_bind keeps_get fun op => ?_) fun _ => keeps_pure _
      exact keeps_onFlow_ports (keeps_declare_internal rfl)
  | consume name => exact keeps_map (keeps_consume_ports name)
  | consumeField name field =>
      refine keeps_map (keeps_bind (keeps_find name) fun s => ?_)
      split
      · exact keeps_stop _
      · exact keeps_bind (keeps_consume_ports name) fun _ => keeps_pure _
  | setCycle cycle => exact keeps_bind (keeps_onTimeline_ports _) fun _ => keeps_pure _
  | advance => exact keeps_bind (keeps_onTimeline_ports _) fun _ => keeps_pure _
  | setCriticalPath delay => exact keeps_bind (keeps_onTimeline_ports _) fun _ => keeps_pure _
  | accrue delay =>
      refine keeps_bind (keeps_bind keeps_get fun op => ?_) fun _ => keeps_pure _
      refine keeps_bind (keeps_ofExcept _) ?_
      rintro ⟨accrual, timeline⟩
      have hmoved : Keeps (HasPorts n) (modify fun op => { op with timeline } :
          Action Fault Operator Unit) := keeps_modify fun _ hop => hop
      cases accrual with
      | fitted => exact keeps_bind (keeps_pure ()) fun _ => hmoved
      | cut => exact keeps_bind (keeps_report _) fun _ => hmoved
  | jump name =>
      refine keeps_bind (keeps_find name) fun s => ?_
      exact keeps_bind (keeps_onTimeline_ports _) fun _ => keeps_pure _
  | join name =>
      refine keeps_bind (keeps_find name) fun s => ?_
      exact keeps_bind (keeps_onTimeline_ports _) fun _ => keeps_pure _
  | instantiate sub name wiring =>
      exact keeps_bind (keeps_instantiate_ports sub name wiring) fun _ => keeps_pure _
  | finish => exact keeps_bind keeps_finish_ports fun _ => keeps_pure _

/-- The lists of ports grow by the calls for ports only. -/
theorem keeps_lists (lib : Library) (hc : ¬ ForPort c) (inputs : Array SignalId)
    (outputs : Array OutputPort) :
    Keeps (fun op => op.inputs = inputs ∧ op.outputs = outputs) (execute lib c) := by
  refine keeps_execute ⟨⟨fun _ h => h, fun _ h => h⟩, fun h _ => h⟩ lib c ?_
  intro op op' h hentry
  cases hentry with
  | input => exact absurd (.input _ _) hc
  | output => exact absurd (.output _ _ _) hc
  | _ => exact h

theorem PortsListed.of_same (h : op.PortsListed) (hports : op'.HasPorts op.flow.netlist)
    (hlists : op'.inputs = op.inputs ∧ op'.outputs = op.outputs) : op'.PortsListed where
  inputs := by rw [hlists.1, hports .input (by decide), h.inputs]
  outputs := by rw [hlists.2, hports .output (by decide), h.outputs]

/-- What is declared is appended to the list of its role. -/
theorem PortsListed.add (h : op.PortsListed) {decl : Declaration}
    (hnetlist : op'.flow.netlist = op.flow.netlist.add decl)
    (hinputs : op'.inputs.toList =
      op.inputs.toList ++ if decl.role = .input then [op.flow.netlist.size] else [])
    (houtputs : op'.outputs.toList.map (·.signal) = op.outputs.toList.map (·.signal) ++
      if decl.role = .output then [op.flow.netlist.size] else []) : op'.PortsListed where
  inputs := by rw [hinputs, hnetlist, Netlist.withRole_add, h.inputs]
  outputs := by rw [houtputs, hnetlist, Netlist.withRole_add, h.outputs]

theorem keeps_portsListed (lib : Library) (c : Call) : Keeps PortsListed (execute lib c) := by
  intro op h
  by_cases hc : ForPort c
  · cases hc with
    | input name width =>
        refine wp_bind.mpr (wp_bind.mpr (wp_declareHere.mpr (Dataflow.wp_declare.mpr ?_)))
        exact ⟨fun _ => h, fun _ => h.add rfl Array.toList_push (List.append_nil _).symm⟩
    | output name width expr =>
        refine wp_bind.mpr (wp_bind.mpr (wp_declareHere.mpr (Dataflow.wp_declare.mpr ?_)))
        refine ⟨fun _ => h, fun _ => h.add rfl (List.append_nil _).symm ?_⟩
        exact (congrArg _ Array.toList_push).trans List.map_append
  · have hsame := (keeps_execute_ports lib hc op fun _ _ => rfl).and
      (keeps_lists lib hc op.inputs op.outputs op ⟨rfl, rfl⟩)
    exact hsame.mono (fun _ _ hop => h.of_same hop.1 hop.2) fun _ _ hop => h.of_same hop.1 hop.2

theorem portsListed_blank (handle : Handle) (name : String) (period : Float) (pipelined : Bool) :
    (blank handle name period pipelined).PortsListed :=
  ⟨rfl, rfl⟩

theorem portsListed_after (handle : Handle) (name : String) (period : Float) (pipelined : Bool)
    (script : Script) : ((blank handle name period pipelined).after script).PortsListed :=
  keeps_after keeps_portsListed (portsListed_blank handle name period pipelined) script

end Operator

end Retime

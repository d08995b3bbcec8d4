import Retime.Proofs.Operator.Closed
import Retime.Proofs.Operator.Notes

/-! # Warnings

When an operator is finished, it is warned of every output of an instance that drives a
signal which was never read. A read is noted for the signal that was named, which may be a
stage of the output. Since stages come to exist behind signals that are read, the note is
there for the output as well.
-/

namespace Retime

/-! ## Warnings and reads -/

/-- Whether one of the names belongs to the signal or to a stage of it. -/
def Netlist.isRead (n : Netlist) (names : List String) (id : SignalId) : Bool :=
  names.any fun name =>
    match n.find name with
    | .ok s => s.id == id || match s.driver with
      | .stage root _ => root == id
      | _ => false
    | .error _ => false

def warnings (events : List Event) : List Event :=
  events.filter (·.level = .warn)

/-- An event of the lowest level. -/
def Quiet (e : Event) : Prop :=
  e.level = .debug

theorem warnings_append (events events' : List Event) :
    warnings (events ++ events') = warnings events ++ warnings events' :=
  List.filter_append ..

theorem warnings_of_quiet {events : List Event} (h : ∀ e ∈ events, Quiet e) :
    warnings events = [] := by
  rw [warnings, List.filter_eq_nil_iff]
  intro e he
  rw [show e.level = .debug from h e he]
  decide

theorem warnings_of_warn {events : List Event} (h : ∀ e ∈ events, e.level = .warn) :
    warnings events = events := by
  rw [warnings, List.filter_eq_self]
  exact fun e he => decide_eq_true (h e he)

theorem Netlist.isRead_iff {n : Netlist} {names : List String} {id : SignalId} :
    n.isRead names id = true ↔ ∃ name ∈ names, ∃ s, n.find name = .ok s ∧
      (s.id = id ∨ ∃ depth, s.driver = .stage id depth) := by
  rw [isRead, List.any_eq_true]
  apply exists_congr
  intro name
  apply and_congr_right
  intro _
  cases n.find name with
  | error e => simp
  | ok s => cases hdriver : s.driver <;> simp [hdriver]

/-! ## Events of calls -/

namespace Dataflow

open Retime.Action

theorem quiet_declare (decl : Declaration) : (declare decl).Reports Quiet := by
  constructor
  intro d e he
  unfold declare at he
  split at he <;> cases he

theorem quiet_addStages (root : Signal) (stem : String) (count depth : Nat) :
    (addStages root stem count depth).Reports Quiet := by
  induction count generalizing depth with
  | zero => exact reports_pure _
  | succ count ih =>
      apply reports_bind
      · apply reports_bind (quiet_declare _)
        intro id
        exact reports_bind (reports_report rfl) fun _ => reports_modify _
      · exact fun _ => ih _

theorem quiet_resolve (s : Signal) (cycle : Nat) : (resolve s cycle).Reports Quiet := by
  unfold resolve
  apply reports_ite (reports_stop _)
  apply reports_ite (reports_pure _)
  apply reports_bind reports_get
  intro d
  dsimp only
  split
  · exact reports_pure _
  · apply reports_bind (quiet_addStages _ _ _ _)
    intro _
    apply reports_bind reports_get
    intro d'
    exact reports_bind (reports_modify _) fun _ => reports_pure _

end Dataflow

namespace Operator

open Retime.Action Dataflow

/-- The events that a script reports. -/
def log : Operator → Script → List Event
  | _, [] => []
  | op, entry :: script => (perform entry.1 entry.2 op).events ++ (op.step entry).log script

variable {op op' : Operator} {lib : Library} {c : Call}

theorem log_append (op : Operator) (script script' : Script) :
    op.log (script ++ script') = op.log script ++ (op.after script).log script' := by
  induction script generalizing op with
  | nil => rfl
  | cons entry script ih =>
      show _ ++ (op.step entry).log (script ++ script') = _ ++ _ ++ _
      rw [ih, List.append_assoc]
      rfl

theorem quiet_find (name : String) : (find name).Reports Quiet :=
  reports_bind reports_get fun _ => reports_ofExcept _

theorem quiet_declareHere (name : String) (role : Role) (clocking : Clocking) (width : Width)
    (driver : Driver) : (declareHere name role clocking width driver).Reports Quiet :=
  reports_bind reports_get fun _ => reports_zoom (quiet_declare _)

theorem quiet_onTimeline (f : Timeline → Except Fault Timeline) : (onTimeline f).Reports Quiet := by
  apply reports_bind reports_get
  intro op
  exact reports_bind (reports_ofExcept _) fun _ => reports_modify _

theorem quiet_read (name : String) (cycle : Nat) : (read name cycle).Reports Quiet := by
  apply reports_bind (quiet_find name)
  intro s
  apply reports_ite (reports_stop _)
  apply reports_bind (reports_zoom (quiet_resolve s cycle))
  intro id
  exact reports_bind (reports_modify _) fun _ => reports_pure _

theorem quiet_consume (name : String) : (consume name).Reports Quiet := by
  apply reports_bind reports_get
  intro op
  exact reports_bind (quiet_read name _) fun _ => reports_bind reports_get fun _ => reports_pure _

theorem quiet_consumeField (name : String) (field : FloatField) :
    (consumeField name field).Reports Quiet := by
  apply reports_bind (quiet_find name)
  intro s
  split
  · exact reports_stop _
  · exact reports_bind (quiet_consume name) fun _ => reports_pure _

theorem quiet_accrue (delay : Float) : (accrue delay).Reports Quiet := by
  apply reports_bind reports_get
  intro op
  apply reports_bind (reports_ofExcept _)
  rintro ⟨accrual, t⟩
  cases accrual with
  | fitted => exact reports_modify _
  | cut => exact reports_bind (reports_report rfl) fun _ => reports_modify _

theorem quiet_connectInput (itf : Interface) (wiring : Wiring) (cycle : Nat) (p : Port) :
    (connectInput itf wiring cycle p).Reports Quiet := by
  unfold connectInput
  split
  · exact reports_stop _
  · exact reports_pure _
  next name _ =>
    apply reports_bind (quiet_find name)
    intro s
    apply reports_ite (reports_stop _)
    exact reports_bind (quiet_read name cycle) fun _ => reports_pure _

theorem quiet_connectOutput (wiring : Wiring) (id cycle : Nat) (p : Port) :
    (connectOutput wiring id cycle p).Reports Quiet := by
  unfold connectOutput
  split
  · exact reports_pure _
  · apply reports_bind (reports_zoom (quiet_declare _))
    intro signal
    exact reports_bind (quiet_onTimeline _) fun _ => reports_pure _

theorem quiet_instantiate (lib : Library) (sub : Handle) (name : String) (wiring : Wiring) :
    (instantiate lib sub name wiring).Reports Quiet := by
  apply reports_bind reports_get
  intro op
  apply reports_ite (reports_stop _)
  apply reports_bind (reports_ofExcept _)
  intro itf
  apply reports_bind (reports_ofExcept _)
  intro _
  apply reports_bind (reports_ofExcept _)
  intro outputCycle
  apply reports_bind (reports_forEach fun p _ => quiet_connectInput itf wiring _ p)
  intro inputs
  apply reports_bind (reports_forEach fun p _ => quiet_connectOutput wiring _ outputCycle p)
  intro outputs
  exact reports_bind (reports_report rfl) fun _ => reports_modify _

/-- No call but the one that finishes an operator warns of anything. -/
theorem quiet_execute (hc : c ≠ .finish) (lib : Library) : (execute lib c).Reports Quiet := by
  cases c with
  | input name width =>
      apply reports_bind
      · exact reports_bind (quiet_declareHere _ _ _ _ _) fun _ => reports_modify _
      · exact fun _ => reports_pure _
  | declare name width clocking expr =>
      exact reports_bind (quiet_declareHere _ _ _ _ _) fun _ => reports_pure _
  | output name width expr =>
      apply reports_bind
      · apply reports_bind (quiet_declareHere _ _ _ _ _)
        exact fun _ => reports_modify _
      · exact fun _ => reports_pure _
  | consume name => exact reports_map (quiet_consume name)
  | consumeField name field => exact reports_map (quiet_consumeField name field)
  | setCycle cycle => exact reports_bind (quiet_onTimeline _) fun _ => reports_pure _
  | advance => exact reports_bind (quiet_onTimeline _) fun _ => reports_pure _
  | accrue delay => exact reports_bind (quiet_accrue delay) fun _ => reports_pure _
  | setCriticalPath delay => exact reports_bind (quiet_onTimeline _) fun _ => reports_pure _
  | jump name =>
      apply reports_bind (quiet_find name)
      exact fun s => reports_bind (quiet_onTimeline _) fun _ => reports_pure _
  | join name =>
      apply reports_bind (quiet_find name)
      exact fun s => reports_bind (quiet_onTimeline _) fun _ => reports_pure _
  | instantiate sub name wiring =>
      exact reports_bind (quiet_instantiate lib sub name wiring) fun _ => reports_pure _
  | finish => exact absurd rfl hc

theorem quiet_expose (depth : Nat) (out : OutputPort) : (expose depth out).Reports Quiet := by
  apply reports_bind reports_get
  intro op
  split
  · exact reports_pure _
  next s _ =>
    apply reports_ite (reports_pure _)
    apply reports_bind
    · apply reports_zoom
      apply reports_bind (quiet_declare _)
      intro base
      apply reports_bind (reports_modify _)
      intro _
      exact reports_bind (quiet_resolve _ _) fun _ => reports_pure _
    · exact fun _ => reports_pure _

/-! ## Events of the call that finishes -/

/-- Every output that is warned of is a warning. -/
theorem level_of_mem_unusedOutputs {e : Event} (he : e ∈ op.unusedOutputs) : e.level = .warn := by
  obtain ⟨inst, -, he⟩ := List.mem_flatMap.mp he
  obtain ⟨⟨formal, signal⟩, -, he⟩ := List.mem_filterMap.mp he
  cases signal with
  | none => cases he
  | some id =>
      by_cases hread : id ∈ op.consumed
      · simp [hread] at he
      · obtain rfl : Event.unused op.name formal inst.name = e := by simpa [hread] using he
        rfl

/-- Exposing outputs leaves the notes of what was read alone. -/
theorem consumed_exposes (depth : Nat) (outs : List OutputPort) :
    (forEach (expose depth) outs).Keeps fun op' => op'.consumed = op.consumed := by
  apply keeps_forEach
  intro out _ op₁ hsame
  simp only [expose, wp_bind, wp_get]
  split
  · exact hsame
  · rw [wp_ite]
    refine ⟨fun _ => hsame, fun _ => ?_⟩
    rw [wp_bind, wp_onFlow]
    exact wp_trivial.mono (fun _ _ _ => hsame) fun _ _ _ => hsame

/-- The call that finishes an operator reports what is not used after whatever else it does. -/
theorem finish_eq {answer : Unit} (h : (finish op).result = .ok answer) :
    ∃ outputs before schedule, forEach (expose op.exposure) op.outputs.toList op = outputs ∧
      outputs.state = before ∧ (finish op).state = { before with schedule := some schedule } ∧
      (finish op).events = outputs.events ++ before.unusedOutputs ++
        [.finished before.name op.exposure schedule.registerCount before.instances.size] := by
  rcases hexposes : forEach (expose op.exposure) op.outputs.toList op with
    ⟨_ | exposed, before, events⟩
  · simp [finish, bind, Action.bind, Action.get, hexposes] at h
  cases hschedule : before.layOut op.exposure exposed with
  | error e =>
      simp [finish, bind, Action.bind, Action.get, hexposes, Action.ofExcept, hschedule] at h
  | ok schedule =>
      refine ⟨_, before, schedule, rfl, rfl, ?_⟩
      simp [finish, bind, Action.bind, Action.get, hexposes, Action.ofExcept, hschedule,
        forEach_report, Action.report, Action.modify]

/-! ## Scripts -/

theorem events_of_open (hopen : op.isFinished = false) :
    (perform lib c op).events = (execute lib c op).events := by
  simp [perform, bind, Action.bind, Action.get, Action.mapError, dispatch_of_open hopen]

theorem warnings_perform (hc : c ≠ .finish) : warnings (perform lib c op).events = [] := by
  cases hopen : op.isFinished with
  | true =>
      rw [perform_eq_of_closed hopen]
      rfl
  | false =>
      rw [events_of_open hopen]
      exact warnings_of_quiet ((quiet_execute hc lib).events op)

theorem warnings_log {script : Script} (hcalls : ∀ entry ∈ script, entry.2 ≠ .finish) :
    warnings (op.log script) = [] := by
  induction script generalizing op with
  | nil => rfl
  | cons entry script ih =>
      have hrest : warnings ((op.step entry).log script) = [] :=
        ih fun entry' hin => hcalls entry' (List.mem_cons_of_mem _ hin)
      rw [log, warnings_append, warnings_perform (hcalls entry List.mem_cons_self), hrest]
      rfl

theorem execute_finish :
    (execute lib .finish op).state = (finish op).state ∧
      (execute lib .finish op).events = (finish op).events := by
  show (Action.bind finish (fun _ => pure none) op).state = _ ∧
    (Action.bind finish (fun _ => pure none) op).events = _
  unfold Action.bind
  rcases finish op with ⟨_ | _, t, events⟩
  · exact ⟨rfl, rfl⟩
  · exact ⟨rfl, List.append_nil events⟩

/-- The call that finishes an operator warns of all outputs that are not noted. -/
theorem warnings_finish (h : op.Succeeds (lib, .finish)) :
    warnings (perform lib .finish op).events = (op.step (lib, .finish)).unusedOutputs ∧
      (op.step (lib, .finish)).consumed = op.consumed ∧
        (op.step (lib, .finish)).isFinished = true := by
  obtain ⟨hopen, hstep, answer, hanswer⟩ := execute_of_succeeds h
  obtain ⟨_, hresult⟩ := ok_of_bind hanswer
  obtain ⟨outputs, before, schedule, rfl, rfl, hstate, hevents⟩ := finish_eq hresult
  have hquiet := (reports_forEach fun out (_ : out ∈ op.outputs.toList) =>
    quiet_expose op.exposure out).events op
  have hfinished := @level_of_mem_unusedOutputs
    (forEach (expose op.exposure) op.outputs.toList op).state
  rw [hstep, execute_finish.1, hstate, events_of_open hopen, execute_finish.2, hevents]
  refine ⟨?_, (consumed_exposes op.exposure op.outputs.toList op rfl).state, rfl⟩
  rw [warnings_append, warnings_append, warnings_of_quiet hquiet,
    warnings_of_warn fun _ => hfinished]
  exact List.append_nil _

/-- Nothing succeeds after an operator is finished, so it is finished last. -/
theorem ne_finish_of_completes {script : Script}
    (h : op.Completes (script ++ [(lib, .finish)])) : ∀ entry ∈ script, entry.2 ≠ .finish := by
  induction script generalizing op with
  | nil => exact fun entry hentry => absurd hentry List.not_mem_nil
  | cons entry script ih =>
      refine List.forall_mem_cons.mpr ⟨?_, ih h.2⟩
      obtain ⟨lib', c⟩ := entry
      rintro rfl
      have hclosed := (warnings_finish h.1).2.2
      obtain ⟨hrest, ⟨answer, hanswer⟩, -⟩ := completes_append.mp h.2
      rw [after_of_closed hclosed, perform_eq_of_closed hclosed] at hanswer
      cases hanswer

/-- As long as all calls succeed, a signal is noted if it or a stage of it was read. -/
theorem Noted.mem_iff {names : List String} (h : op.Noted names) (hsound : op'.flow.Sound)
    (hext : op.flow.Extends op'.flow) {id : SignalId} :
    id ∈ op.consumed ↔ op'.flow.netlist.isRead names id = true := by
  rw [Netlist.isRead_iff]
  constructor
  · intro hid
    obtain ⟨name, hname, s, hfind, hs⟩ := h.named id hid
    exact ⟨name, hname, s, hext.find h.flow hsound hfind, .inl hs⟩
  · rintro ⟨name, hname, s, hfind, hread⟩
    obtain ⟨s', hfind', hnoted⟩ := h.noted name hname
    have hsame := (hext.find h.flow hsound hfind').symm.trans hfind
    obtain rfl := Except.ok.inj hsame
    rcases hread with rfl | ⟨depth, hdriver⟩
    · exact hnoted
    · exact h.roots s' (h.flow.lawful.find_ok.mp hfind').1 id depth hdriver

/-- A warning for every output of an instance that is connected to a signal which none of the
names reads. -/
def unreadOutputs (op : Operator) (names : List String) : List Event :=
  op.instances.toList.flatMap fun inst => inst.outputs.filterMap fun (formal, signal) =>
    signal.bind fun id =>
      if op.flow.netlist.isRead names id then none else some (.unused op.name formal inst.name)

theorem unusedOutputs_eq {names : List String}
    (h : ∀ id, id ∈ op.consumed ↔ op.flow.netlist.isRead names id = true) :
    op.unusedOutputs = op.unreadOutputs names := by
  unfold unusedOutputs unreadOutputs
  congr 1
  funext inst
  congr 1
  funext ⟨formal, signal⟩
  cases signal with
  | none => rfl
  | some id => simp [h id]

/-- A run in which every call succeeds and whose last call finishes the operator warns once of
each output of an instance that is connected to a signal which was not read, neither itself nor
any stage of it. The warnings are in the order of the instances, and for each instance in that of
the outputs of its interface. -/
theorem finishing_warns_of_unread_outputs {handle : Handle} {name : String} {period : Float}
    {pipelined : Bool} {script : Script} {lib : Library}
    (hcompletes : (blank handle name period pipelined).Completes (script ++ [(lib, .finish)])) :
    let start := blank handle name period pipelined
    let run := script ++ [(lib, .finish)]
    let op := start.after run
    warnings (start.log run) = op.unreadOutputs (Script.reads run) ∧
      ∀ (i : Nat) (inst : Instance), op.instances[i]? = some inst →
        inst.Fits i op.flow.netlist := by
  intro start run op
  have hstart := consistent_blank handle name period pipelined
  have hop : op.Consistent := consistent_after hstart hcompletes
  have hcalls := ne_finish_of_completes hcompletes
  obtain ⟨hbefore, hlast, -⟩ := completes_append.mp hcompletes
  obtain ⟨schedule, exposed, hfinished⟩ := finished_after hstart hcompletes
  have hnoted := noted_after (noted_blank handle name period pipelined) hbefore hcalls
  obtain ⟨hwarnings, hconsumed, -⟩ := warnings_finish hlast
  have hop_eq : op = (start.after script).step (lib, .finish) := after_append
  have hreads : Script.reads run = Script.reads script := by
    simp [run, Script.reads, Call.reads]
  refine ⟨?_, fun i inst hinst => hop.fits hinst⟩
  rw [log_append, warnings_append, warnings_log hcalls, hreads]
  have hread : ∀ id, id ∈ op.consumed ↔
      op.flow.netlist.isRead (Script.reads script) id = true := by
    intro id
    rw [hop_eq, hconsumed, ← hop_eq]
    exact hnoted.mem_iff hop.flow hfinished.aligned.extends_flow
  rw [← unusedOutputs_eq hread, hop_eq, ← hwarnings]
  exact congrArg warnings (List.append_nil _)

theorem find_splitByte (sequential : Bool) (t : Timeline) :
    (splitByte sequential t).flow.netlist.find "a" =
      .ok ⟨⟨"a", .input, .combinational, .vector 8, 0, .port⟩, 0⟩ := by
  let a : Declaration := ⟨"a", .input, .combinational, .vector 8, 0, .port⟩
  have hfind : lateByte.flow.netlist.find "a" = .ok ⟨a, 0⟩ := Netlist.find_add_self a
  exact Netlist.find_add_of_ne (Netlist.find_add_of_ne hfind (by decide)) (by decide)

/-- The copy of the splitter is connected to a byte and to a signal that is not read; its other
output is left open. -/
theorem leads_splitterCopy_finish (lib : Library) : ∃ op,
    lateByte.Leads [(splitterLibrary, splitterCopy), (lib, .finish)] op ∧
      op.unreadOutputs ["a"] = [.unused "top" "Q" "u"] := by
  obtain ⟨sequential, t, ht, hcopy⟩ := leads_splitterCopy
  have hbudgeted : lateByte.timeline.Budgeted := by
    rw [← (leads_lateByteCalls splitterLibrary).2]
    exact budgeted_after (by decide) 1 "top" _
  have hbounded : (splitByte sequential t).timeline.Bounded :=
    (Timeline.budgeted_arrive hbudgeted ht).toBounded
  obtain ⟨schedule, -, hfinish⟩ : ∃ schedule, _ ∧ Leads _ [(lib, .finish)] _ :=
    leads_finish_of_bounded rfl rfl hbounded
  have hread : (splitByte sequential t).flow.netlist.isRead ["a"] 2 = false := by
    simp [Netlist.isRead, find_splitByte]
  have hunread : (splitByte sequential t).unreadOutputs ["a"] = [.unused "top" "Q" "u"] := by
    have hname : (splitByte sequential t).name = "top" := rfl
    have hinstances : (splitByte sequential t).instances = #[⟨0, "u", 0,
      splitterInterface sequential, 1, 1, [("X", .signal 1)], [("P", none), ("Q", some 2)]⟩] := rfl
    simp [unreadOutputs, hname, hinstances, hread]
  exact ⟨_, hcopy.cons hfinish, hunread⟩

/-- Of the two outputs of the copy, only the one that is connected is warned of. -/
theorem splitterCopy_warns :
    let start := blank 1 "top" 4 true
    let script := (lateByteCalls ++ [splitterCopy]).map (splitterLibrary, ·)
    let run := script ++ [(splitterLibrary, .finish)]
    start.Completes run ∧ warnings (start.log run) = [.unused "top" "Q" "u"] := by
  intro start script run
  obtain ⟨op, hcopy, hunread⟩ := leads_splitterCopy_finish splitterLibrary
  obtain ⟨hcompletes, hop⟩ : start.Leads run op :=
    (leads_lateByteCalls splitterLibrary).append hcopy
  obtain ⟨hwarnings, -⟩ := finishing_warns_of_unread_outputs hcompletes
  rw [← hop] at hunread
  exact ⟨hcompletes, hwarnings.trans hunread⟩

end Operator

end Retime

import Retime.Proofs.Operator.Effect

/-! # Notes of what was read

Of a signal that is read, the one that was named is noted, which may be a stage of another.
But stages come to exist behind signals that are read, so the root of a stage is noted
before there is any stage to name.
-/

namespace Retime

/-! ## What calls read -/

def Source.reads : Source → List String
  | signal name => [name]
  | constant _ => []

/-- The signals that a call reads, by the names it gives. -/
def Call.reads : Call → List String
  | consume name => [name]
  | consumeField name _ => [name]
  | instantiate _ _ wiring => wiring.inputs.flatMap (·.2.reads)
  | _ => []

def Script.reads (script : Script) : List String :=
  script.flatMap (·.2.reads)

/-- The signals that a port reads. -/
def Wiring.readsAt (wiring : Wiring) (p : Port) : List String :=
  (wiring.inputs.lookup p.name).toList.flatMap Source.reads

/-- Whatever order the connections are made in, the ports read what is connected to them. -/
theorem Wiring.Matches.mem_reads {wiring : Wiring} {itf : Interface} (h : wiring.Matches itf)
    {name : String} :
    name ∈ itf.inputs.flatMap wiring.readsAt ↔ name ∈ wiring.inputs.flatMap (·.2.reads) := by
  simp only [List.mem_flatMap, Wiring.readsAt, Option.mem_toList]
  constructor
  · rintro ⟨p, -, source, hsource, hname⟩
    exact ⟨(p.name, source), h.lookup_inputs.mp hsource, hname⟩
  · rintro ⟨⟨formal, source⟩, hentry, hname⟩
    obtain ⟨p, hp, rfl⟩ := h.inputs _ hentry
    exact ⟨p, hp, source, h.lookup_inputs.mpr hentry, hname⟩

namespace Operator

open Retime.Action Dataflow

/-- What was read, by these names, is noted, and nothing else is. -/
structure Noted (op : Operator) (names : List String) : Prop where
  flow : op.flow.Sound
  named : ∀ id ∈ op.consumed, ∃ name ∈ names, ∃ s, op.flow.netlist.find name = .ok s ∧ s.id = id
  noted : ∀ name ∈ names, ∃ s, op.flow.netlist.find name = .ok s ∧ s.id ∈ op.consumed
  /-- There are stages behind noted signals only. -/
  roots : ∀ s : Signal, op.flow.netlist.signal? s.id = some s →
    ∀ r depth, s.driver = .stage r depth → r ∈ op.consumed

variable {op op' : Operator} {names : List String} {lib : Library} {c : Call}

theorem noted_blank (handle : Handle) (name : String) (period : Float) (pipelined : Bool) :
    (blank handle name period pipelined).Noted [] where
  flow := sound_empty
  named id hid := by simp [blank] at hid
  noted name hname := by simp at hname
  roots s hs := by simp [blank, Netlist.signal?] at hs

/-- The order of the names does not matter. -/
theorem Noted.congr {names' : List String} (h : op.Noted names)
    (hnames : ∀ name, name ∈ names ↔ name ∈ names') : op.Noted names' where
  flow := h.flow
  named id hid := by
    obtain ⟨name, hname, hfound⟩ := h.named id hid
    exact ⟨name, (hnames name).mp hname, hfound⟩
  noted name hname := h.noted name ((hnames name).mpr hname)
  roots := h.roots

theorem Noted.same (h : op.Noted names) (hflow : op'.flow = op.flow)
    (hconsumed : op'.consumed = op.consumed) : op'.Noted names where
  flow := hflow ▸ h.flow
  named id hid := hflow ▸ h.named id (hconsumed ▸ hid)
  noted name hname := hflow ▸ hconsumed ▸ h.noted name hname
  roots s hs r depth hdriver := hconsumed ▸ h.roots s (hflow ▸ hs) r depth hdriver

/-- Further signals that are no stages are not noted. -/
theorem Noted.extend (h : op.Noted names) (hsound : op'.flow.Sound)
    (hext : op.flow.Extends op'.flow) (hconsumed : op'.consumed = op.consumed)
    (hnew : ∀ s : Signal, op'.flow.netlist.signal? s.id = some s →
      op.flow.netlist.signal? s.id = some s ∨ ∀ r depth, s.driver ≠ .stage r depth) :
    op'.Noted names where
  flow := hsound
  named id hid := by
    obtain ⟨name, hname, s, hfind, hs⟩ := h.named id (hconsumed ▸ hid)
    exact ⟨name, hname, s, hext.find h.flow hsound hfind, hs⟩
  noted name hname := by
    obtain ⟨s, hfind, hs⟩ := h.noted name hname
    exact ⟨s, hext.find h.flow hsound hfind, hconsumed ▸ hs⟩
  roots s hs r depth hdriver := by
    rcases hnew s hs with hold | hother
    · exact hconsumed ▸ h.roots s hold r depth hdriver
    · exact absurd hdriver (hother r depth)

theorem Noted.declare (h : op.Noted names) {decl : Declaration}
    (hfree : op.flow.netlist.contains decl.name = false)
    (hdriver : ∀ r depth, decl.driver ≠ .stage r depth) :
    Noted { op with flow.netlist := op.flow.netlist.add decl } names := by
  refine h.extend (h.flow.declare hfree hdriver) (extends_declare decl) rfl fun s hs => ?_
  rcases Netlist.signal?_add_cases hs with ⟨-, hnew⟩ | hold
  · rw [hnew]
    exact .inr hdriver
  · exact .inl hold

/-- The root of a signal that is noted is noted. -/
theorem Noted.root_mem (h : op.Noted names) {s : Signal}
    (hs : op.flow.netlist.signal? s.id = some s) :
    (op.flow.netlist.root s).id ∈ op.consumed.insert s.id := by
  have hroots := h.roots s hs
  unfold Netlist.root
  split
  next r depth hdriver =>
    obtain ⟨k, -, hk⟩ := h.flow.place hs hdriver
    obtain ⟨root, hroot, -⟩ := h.flow.stage hk
    rw [hroot, Option.getD_some, h.flow.lawful.id_eq hroot]
    exact Std.HashSet.mem_insert.mpr (.inr (hroots r depth hdriver))
  · exact Std.HashSet.mem_insert_self

/-- The signal `s` is read. -/
theorem Noted.read (h : op.Noted names) {name : String} {s : Signal} {cycle : Nat} {id : SignalId}
    {d : Dataflow} (hfind : op.flow.netlist.find name = .ok s)
    (hanswered : op.flow.Answered (op.flow.netlist.root s) s cycle id d) (hsound : d.Sound)
    (hext : op.flow.Extends d) :
    Noted { op with flow := d, consumed := op.consumed.insert s.id } (names ++ [name]) where
  flow := hsound
  named id' hid := by
    rcases Std.HashSet.mem_insert.mp hid with hself | hold
    · exact ⟨name, by simp, s, hext.find h.flow hsound hfind, by simpa using hself⟩
    · obtain ⟨name', hname, s', hfind', hs⟩ := h.named id' hold
      exact ⟨name', List.mem_append_left _ hname, s', hext.find h.flow hsound hfind', hs⟩
  noted name' hname := by
    rcases List.mem_append.mp hname with hold | hnew
    · obtain ⟨s', hfind', hs⟩ := h.noted name' hold
      exact ⟨s', hext.find h.flow hsound hfind', Std.HashSet.mem_insert.mpr (.inr hs)⟩
    · obtain rfl := List.mem_singleton.mp hnew
      exact ⟨s, hext.find h.flow hsound hfind, Std.HashSet.mem_insert_self⟩
  roots t ht r depth hdriver := by
    have hmem := hsound.lawful.mem_signals.mpr ht
    rw [hanswered.grown.gains.signals, List.mem_append] at hmem
    rcases hmem with hold | hnew
    · have hr := h.roots t (h.flow.lawful.mem_signals.mp hold) r depth hdriver
      exact Std.HashSet.mem_insert.mpr (.inr hr)
    · obtain ⟨k, -, -, hstage⟩ := mem_nextStages.mp (List.mem_map_of_mem hnew)
      have hsame : Driver.stage (op.flow.netlist.root s).id k = .stage r depth :=
        (congrArg Declaration.driver hstage).symm.trans hdriver
      obtain ⟨rfl, -⟩ := Driver.stage.inj hsame
      exact h.root_mem (h.flow.lawful.find_ok.mp hfind).1

/-! ## Calls -/

theorem Noted.wp_read (h : op.Noted names) (name : String) (cycle : Nat) :
    (Operator.read name cycle).wp (fun _ op' => op'.Noted (names ++ [name])) (fun _ _ => True)
      op := by
  apply ((Operator.wp_read h.flow name cycle).and (wp_read_exact h.flow name cycle)).mono
  · rintro id op' ⟨⟨hlonger, -⟩, s, d, hfind, hanswered, rfl⟩
    exact h.read hfind hanswered hlonger.sound hlonger.extends_flow
  · exact fun _ _ _ => trivial

theorem Noted.wp_consume (h : op.Noted names) (name : String) :
    (consume name).wp (fun _ op' => op'.Noted (names ++ [name])) (fun _ _ => True) op := by
  unfold consume
  rw [wp_bind, wp_get, wp_bind]
  exact h.wp_read name op.timeline.cycle

theorem Noted.wp_connectInput (h : op.Noted names) (itf : Interface) (wiring : Wiring)
    (cycle : Nat) (p : Port) :
    (connectInput itf wiring cycle p).wp (fun _ op' => op'.Noted (names ++ wiring.readsAt p))
      (fun _ _ => True) op := by
  apply ((wp_connectInput_exact h.flow itf p).and
    (Operator.wp_connectInput h.flow itf cycle p)).mono
  · rintro entry op' ⟨hfetches, hlonger, -⟩
    cases hfetches with
    | constant text bound => simpa [Wiring.readsAt, bound, Source.reads] using h
    | signal name s id d bound found answered =>
        have hread := h.read found answered hlonger.sound hlonger.extends_flow
        simpa [Wiring.readsAt, bound, Source.reads] using hread
  · exact fun _ _ _ => trivial

theorem Noted.wp_connectInputs (h : op.Noted names) (itf : Interface) (wiring : Wiring)
    (cycle : Nat) (ports : List Port) :
    (forEach (connectInput itf wiring cycle) ports).wp
      (fun _ op' => op'.Noted (names ++ ports.flatMap wiring.readsAt)) (fun _ _ => True) op := by
  refine wp_forEach (fun done _ (op' : Operator) =>
    op'.Noted (names ++ done.flatMap wiring.readsAt)) ?_ ?_
  · simpa using h
  · intro done p rest entries op' _ hdone
    simpa using hdone.wp_connectInput itf wiring cycle p

/-- The signals that outputs drive are no stages. -/
theorem Noted.drove (h : op.Noted names) {wiring : Wiring} {place cycle : Nat} {ports : List Port}
    {entries : List (String × Option SignalId)} (hsound : op'.flow.Sound)
    (hext : op.flow.Extends op'.flow) (hdrove : Drove wiring place cycle op op' ports entries) :
    op'.Noted names := by
  apply h.extend hsound hext hdrove.consumed
  intro s hs
  obtain ⟨new, hsignals, hdecls, -⟩ := hdrove.signals
  have hmem := hsound.lawful.mem_signals.mpr hs
  rw [hsignals, List.mem_append] at hmem
  rcases hmem with hold | hnew
  · exact .inl (h.flow.lawful.mem_signals.mp hold)
  · have hdriven : s.toDeclaration ∈ drivenBy wiring place cycle ports :=
      hdecls ▸ List.mem_map_of_mem hnew
    obtain ⟨p, -, hp⟩ := List.mem_filterMap.mp hdriven
    obtain ⟨name, -, hdecl⟩ := Option.map_eq_some_iff.mp hp
    rw [show s.driver = .inst place p.name from (congrArg Declaration.driver hdecl).symm]
    exact .inr fun r depth => Driver.noConfusion

theorem Noted.wp_instantiate (h : op.Noted names) (lib : Library) (sub : Handle) (name : String)
    (wiring : Wiring) :
    (instantiate lib sub name wiring).wp
      (fun _ op' => op'.Noted (names ++ wiring.inputs.flatMap (·.2.reads))) (fun _ _ => True)
      op := by
  refine wp_instantiate_of (fun itf cycle hadmits => ?_) fun _ _ => trivial
  refine (h.wp_connectInputs itf wiring _ itf.inputs).mono ?_ fun _ _ _ => trivial
  intro inputs mid hmid
  refine ((wp_connectOutputs hmid.flow _ _ itf.outputs).and
    (wp_connectOutputs_exact mid wiring _ _ itf.outputs)).mono ?_ fun _ _ _ => trivial
  rintro outputs last ⟨hdriven, hdrove⟩
  have hlast := hmid.drove hdriven.sound hdriven.extends_flow hdrove
  refine (hlast.congr fun name => ?_).same rfl rfl
  rw [List.mem_append, (Wiring.check_eq_ok.mp hadmits.checked).mem_reads, List.mem_append]

theorem Noted.wp_declareHere (h : op.Noted names) {name : String} {role : Role}
    {clocking : Clocking} {width : Width} {driver : Driver}
    (hdriver : ∀ r depth, driver ≠ .stage r depth) :
    (declareHere name role clocking width driver).wp (fun _ op' => op'.Noted names)
      (fun _ _ => True) op :=
  Operator.wp_declareHere.mpr
    (wp_declare.mpr ⟨fun _ => trivial, fun hfree => h.declare hfree hdriver⟩)

theorem Noted.wp_onTimeline (h : op.Noted names) (f : Timeline → Except Fault Timeline) :
    (onTimeline f).wp (fun _ op' => op'.Noted names) (fun _ _ => True) op :=
  Operator.wp_onTimeline.mpr ⟨fun _ _ => h.same rfl rfl, fun _ _ => trivial⟩

theorem Noted.wp_accrue (h : op.Noted names) (delay : Float) :
    (accrue delay).wp (fun _ op' => op'.Noted names) (fun _ _ => True) op := by
  simp only [accrue, wp_bind, wp_get, wp_ofExcept]
  refine ⟨?_, fun _ _ => trivial⟩
  rintro ⟨accrual, t⟩ -
  cases accrual with
  | fitted => exact wp_modify.mpr (h.same rfl rfl)
  | cut => exact wp_bind.mpr (wp_report.mpr (wp_modify.mpr (h.same rfl rfl)))

/-- What a call reads is noted with what was read before. -/
theorem Noted.wp_execute (h : op.Noted names) (hc : c ≠ .finish) (lib : Library) :
    (execute lib c).wp (fun _ op' => op'.Noted (names ++ c.reads)) (fun _ _ => True) op := by
  have hnone : op.Noted (names ++ []) := by simpa using h
  cases c with
  | input name width =>
      refine wp_bind.mpr (wp_bind.mpr ?_)
      exact (hnone.wp_declareHere (by simp)).mono (fun _ _ h' => h'.same rfl rfl) fun _ _ _ => trivial
  | declare name width clocking text =>
      exact wp_bind.mpr (hnone.wp_declareHere (by simp))
  | output name width text =>
      refine wp_bind.mpr (wp_bind.mpr ?_)
      exact (hnone.wp_declareHere (by simp)).mono (fun _ _ h' => h'.same rfl rfl) fun _ _ _ => trivial
  | consume name => exact wp_map.mpr (h.wp_consume name)
  | consumeField name field =>
      refine wp_map.mpr (wp_bind.mpr (wp_find.mpr ⟨fun s _ => ?_, fun _ _ => trivial⟩))
      split
      · trivial
      · exact wp_bind.mpr (h.wp_consume name)
  | setCycle cycle => exact wp_bind.mpr (hnone.wp_onTimeline _)
  | advance => exact wp_bind.mpr (hnone.wp_onTimeline _)
  | accrue delay => exact wp_bind.mpr (hnone.wp_accrue delay)
  | setCriticalPath delay => exact wp_bind.mpr (hnone.wp_onTimeline _)
  | jump name =>
      refine wp_bind.mpr (wp_find.mpr ⟨fun s _ => ?_, fun _ _ => trivial⟩)
      exact wp_bind.mpr (hnone.wp_onTimeline _)
  | join name =>
      refine wp_bind.mpr (wp_find.mpr ⟨fun s _ => ?_, fun _ _ => trivial⟩)
      exact wp_bind.mpr (hnone.wp_onTimeline _)
  | instantiate sub name wiring => exact wp_bind.mpr (h.wp_instantiate lib sub name wiring)
  | finish => exact absurd rfl hc

/-! ## Scripts -/

theorem Noted.step (h : op.Noted names) {entry : Library × Call} (hentry : entry.2 ≠ .finish)
    (hsucceeds : op.Succeeds entry) : (op.step entry).Noted (names ++ entry.2.reads) := by
  obtain ⟨-, hstep, answer, hanswer⟩ := execute_of_succeeds hsucceeds
  rw [hstep]
  exact (h.wp_execute hentry entry.1).of_ok hanswer

/-- What a script reads is noted as long as nothing is finished. -/
theorem noted_after (h : op.Noted names) {script : Script} (hcompletes : op.Completes script)
    (hcalls : ∀ entry ∈ script, entry.2 ≠ .finish) :
    (op.after script).Noted (names ++ Script.reads script) := by
  induction script generalizing op names with
  | nil => simpa [Script.reads] using h
  | cons entry script ih =>
      have hstep := h.step (hcalls entry List.mem_cons_self) hcompletes.1
      have hrest := ih hstep hcompletes.2 fun entry' hin => hcalls entry' (List.mem_cons_of_mem _ hin)
      simpa [Script.reads] using hrest

end Operator

end Retime

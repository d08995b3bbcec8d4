import Retime.Proofs.Library.Finishing
import Retime.Proofs.Library.Triples
import Retime.Proofs.Operator.Draft

/-! # Designs at work

The designs of the built-in kinds declare values, read them and accrue work. Such a design
comes to its end unless the timeline refuses its work, and then it stops as the timeline does.
The statements below follow a design by the work that is done and the values that are there.
-/

namespace Retime

open Retime.Action Retime.Operator Retime.Dataflow

/-- Values of these names and widths are there in the current cycle, and all copies have
delivered. -/
def Operator.Ready (ports : List Port) (copies : List (String × Nat))
    (values : List (String × Width)) (t : Timeline) (op : Operator) : Prop :=
  ∃ decls, Draft ports decls copies t op ∧ decls.map (fun d => (d.name, d.width)) = values ∧
    (∀ d ∈ decls, d.cycle ≤ t.cycle) ∧ ∀ c ∈ copies, c.2 ≤ t.cycle

/-- From a timeline with `S` on, the work `done` was done. -/
def Operator.Progress (S : Timeline → Prop) (ports : List Port) (copies : List (String × Nat))
    (values : List (String × Width)) (done : List Float) (op : Operator) : Prop :=
  ∃ start t, S start ∧ start.accrueAll done = .ok t ∧ Ready ports copies values t op

/-- All work was done, and the result is the output `R`. -/
def Operator.Complete (S : Timeline → Prop) (ports : List Port) (width : Width)
    (work : List Float) (op : Operator) : Prop :=
  ∃ start t copies, S start ∧ start.accrueAll work = .ok t ∧
    Described ports ⟨"R", width, t.criticalPath⟩ copies t op ∧ ∀ c ∈ copies, c.2 ≤ t.cycle

/-- A timeline with `S` refuses the work. -/
def Timeline.Refuses (S : Timeline → Prop) (work : List Float) (e : Fault) : Prop :=
  ∃ start, S start ∧ start.accrueAll work = .error e

namespace Operator

variable {op : Operator} {ports : List Port} {copies : List (String × Nat)}
  {values : List (String × Width)} {t t' : Timeline} {name : String} {width : Width} {lib : Library}

/-! ## Calls on an operator with values -/

section Ready

variable (h : Ready ports copies values t op)
include h

theorem Ready.unfinished : op.schedule = none := by
  obtain ⟨decls, hdraft, -⟩ := h
  exact hdraft.unfinished

/-- An action that declares one more value in the current cycle. -/
theorem Ready.wp_extend {α : Type} {m : Action Fault Operator α} {ports' : List Port}
    (decl : Declaration) (hcycle : decl.cycle = t.cycle)
    (hm : ∀ decls, Draft ports decls copies t op → decls.map (·.name) = values.map (·.1) →
      m.wp (fun _ => Draft ports' (decls ++ [decl]) copies t) (fun _ _ => False) op) :
    m.wp (fun _ => Ready ports' copies (values ++ [(decl.name, decl.width)]) t)
      (fun _ _ => False) op := by
  obtain ⟨decls, hdraft, rfl, hcycles, hcopies⟩ := h
  refine (hm decls hdraft (by simp)).mono (fun _ op' hop' => ?_) fun _ _ hfalse => hfalse
  refine ⟨decls ++ [decl], hop', by simp, fun d hd => ?_, hcopies⟩
  rcases List.mem_append.mp hd with hold | hnew
  · exact hcycles d hold
  · rw [List.mem_singleton.mp hnew, hcycle]

theorem Ready.wp_input (hname : Plain name) (hfresh : name ∉ values.map (·.1)) :
    (execute lib (.input name width)).wp
      (fun _ => Ready (ports ++ [⟨name, width, 0⟩]) copies (values ++ [(name, width)]) t)
      (fun _ _ => False) op :=
  h.wp_extend ⟨name, .input, .combinational, width, t.cycle, .port⟩ rfl
    fun _ hdraft hnames => hdraft.wp_input hname (hnames ▸ hfresh)

theorem Ready.wp_declare (hname : Plain name) (hfresh : name ∉ values.map (·.1))
    (clocking : Clocking) (expr : String) :
    (execute lib (.declare name width clocking expr)).wp
      (fun _ => Ready ports copies (values ++ [(name, width)]) t) (fun _ _ => False) op :=
  h.wp_extend ⟨name, .internal, clocking, width, t.cycle, .expr expr⟩ rfl
    fun _ hdraft hnames => hdraft.wp_internal hname (hnames ▸ hfresh) clocking expr

/-- An action that reads a value that is there. -/
theorem Ready.wp_reading {α : Type} {m : Action Fault Operator α} (hmem : (name, width) ∈ values)
    (hm : ∀ decls decl, Draft ports decls copies t op → decl ∈ decls → decl.name = name →
      decl.width = width → decl.cycle ≤ t.cycle →
      m.wp (fun _ => Draft ports decls copies t) (fun _ _ => False) op) :
    m.wp (fun _ => Ready ports copies values t) (fun _ _ => False) op := by
  obtain ⟨decls, hdraft, rfl, hcycles, hcopies⟩ := h
  obtain ⟨decl, hdecl, hsame⟩ := List.mem_map.mp hmem
  obtain ⟨hname, hwidth⟩ := Prod.mk.inj hsame
  refine (hm decls decl hdraft hdecl hname hwidth (hcycles decl hdecl)).mono (fun _ op' hop' => ?_)
    fun _ _ hfalse => hfalse
  exact ⟨decls, hop', rfl, hcycles, hcopies⟩

theorem Ready.wp_consume (hmem : (name, width) ∈ values) :
    (execute lib (.consume name)).wp (fun _ => Ready ports copies values t)
      (fun _ _ => False) op :=
  h.wp_reading hmem fun decls decl hdraft hdecl hname _ hle => by
    subst hname
    exact wp_map.mpr (hdraft.wp_consume hdecl hle)

theorem Ready.wp_consumeField (hmem : (name, width) ∈ values) {field : FloatField}
    {range : BitRange} (hrange : width.fieldRange? field = some range) :
    (execute lib (.consumeField name field)).wp (fun _ => Ready ports copies values t)
      (fun _ _ => False) op :=
  h.wp_reading hmem fun decls decl hdraft hdecl hname hwidth hle => by
    subst hname hwidth
    exact wp_map.mpr (hdraft.wp_consumeField hdecl hle hrange)

/-- Work leads to a later cycle at most, so what is there stays there. -/
theorem Ready.wp_accrue (x : Float) :
    (execute lib (.accrue x)).wp
      (fun _ op' => ∃ t', t.move (.accrue x) = .ok t' ∧ Ready ports copies values t' op')
      (fun e _ => t.move (.accrue x) = .error e) op := by
  obtain ⟨decls, hdraft, hvalues, hcycles, hcopies⟩ := h
  simp only [execute]
  rw [wp_bind]
  refine (hdraft.wp_accrue x).mono (fun _ op' hop' => ?_) fun _ _ he => he
  obtain ⟨t', hmove, hop'⟩ := hop'
  have hle := Timeline.cycle_le_of_accrue hmove
  exact ⟨t', hmove, decls, hop', hvalues, fun d hd => (hcycles d hd).trans hle,
    fun c hc => (hcopies c hc).trans hle⟩

theorem Ready.wp_output (hname : Plain name) (hfresh : name ∉ values.map (·.1)) (expr : String) :
    (execute lib (.output name width expr)).wp
      (fun _ => Described ports ⟨name, width, t.criticalPath⟩ copies t) (fun _ _ => False) op := by
  obtain ⟨decls, hdraft, rfl, -, -⟩ := h
  exact hdraft.wp_output hname (by simpa using hfresh) expr

end Ready

theorem progress_blank {S : Timeline → Prop} {handle : Handle} {period : Float} {pipelined : Bool}
    (hstart : S { period, pipelined }) :
    Progress S [] [] [] [] (blank handle name period pipelined) :=
  ⟨_, _, hstart, rfl, [], draft_blank handle name period pipelined, rfl, by simp, by simp⟩

end Operator

/-! ## Pieces of designs with values -/

namespace Build

variable {lib : Library} {h : Handle} {S : Timeline → Prop} {work done rest : List Float}
  {ports : List Port} {copies : List (String × Nat)} {values : List (String × Width)}
  {name : String} {width : Width} {x : Float} {E : Fault → Prop}

/-- A call that leaves the timeline alone does not fail. -/
theorem executes_of_ready {c : Call} {ports' : List Port} {values' : List (String × Width)}
    (hc : ∀ t op, Ready ports copies values t op →
      (execute lib c).wp (fun _ => Ready ports' copies values' t) (fun _ _ => False) op)
    {op : Operator} (hop : Progress S ports copies values done op) :
    op.schedule = none ∧ (execute lib c).wp (fun _ => Progress S ports' copies values' done)
      (fun e _ => E e) op := by
  obtain ⟨start, t, hS, hdone, hready⟩ := hop
  refine ⟨hready.unfinished, (hc t op hready).mono (fun _ op' hop' => ?_) fun _ _ hfalse =>
    hfalse.elim⟩
  exact ⟨start, t, hS, hdone, hop'⟩

theorem triple_input (hname : Plain name) (hfresh : name ∉ values.map (·.1)) :
    Triple lib h E (Progress S ports copies values done)
      (call (.input name width))
      fun _ => Progress S (ports ++ [⟨name, width, 0⟩]) copies (values ++ [(name, width)]) done :=
  triple_call fun _ _ => executes_of_ready fun _ _ hready => hready.wp_input hname hfresh

theorem triple_declare (hname : Plain name) (hfresh : name ∉ values.map (·.1)) (bits : Nat)
    (expr : String) :
    Triple lib h E (Progress S ports copies values done)
      (declare name bits expr)
      fun _ => Progress S ports copies (values ++ [(name, .vector bits)]) done :=
  triple_call fun _ _ => executes_of_ready fun _ _ hready => hready.wp_declare hname hfresh _ expr

theorem triple_consume (hmem : name ∈ values.map (·.1)) :
    Triple lib h E (Progress S ports copies values done) (consume name)
      fun _ => Progress S ports copies values done := by
  obtain ⟨⟨_, width⟩, hvalue, rfl⟩ := List.mem_map.mp hmem
  exact triple_ask fun _ _ => executes_of_ready fun _ _ hready => hready.wp_consume hvalue

theorem triple_consumeField (hmem : (name, width) ∈ values) {field : FloatField} {range : BitRange}
    (hrange : width.fieldRange? field = some range) :
    Triple lib h E (Progress S ports copies values done)
      (ask (.consumeField name field)) fun _ => Progress S ports copies values done :=
  triple_ask fun _ _ => executes_of_ready fun _ _ hready => hready.wp_consumeField hmem hrange

/-- The next piece of work. -/
theorem triple_accrue (hwork : done ++ x :: rest = work) :
    Triple lib h (Timeline.Refuses S work) (Progress S ports copies values done) (accrue x)
      fun _ => Progress S ports copies values (done ++ [x]) := by
  refine triple_call fun op _ hop => ?_
  obtain ⟨start, t, hS, hdone, hready⟩ := hop
  refine ⟨hready.unfinished, (hready.wp_accrue x).mono ?_ ?_⟩
  · rintro _ op' ⟨t', hmove, hready'⟩
    exact ⟨start, t', hS, (Timeline.accrueAll_snoc hdone x).trans hmove, hready'⟩
  · intro e _ hmove
    refine ⟨start, hS, ?_⟩
    have hrefused := (Timeline.accrueAll_snoc hdone x).trans hmove
    rw [← hwork, List.append_cons]
    exact Timeline.accrueAll_error hrefused rest

theorem triple_output (hfresh : "R" ∉ values.map (·.1)) (width : Width) (expr : String) :
    Triple lib h E (Progress S ports copies values work)
      (call (.output "R" width expr)) fun _ => Complete S ports width work := by
  refine triple_call fun op _ hop => ?_
  obtain ⟨start, t, hS, hdone, hready⟩ := hop
  have hcopies : ∀ c ∈ copies, c.2 ≤ t.cycle := by
    obtain ⟨decls, -, -, -, hcopies⟩ := hready
    exact hcopies
  refine ⟨hready.unfinished, (hready.wp_output (by simp [Plain]) hfresh expr).mono ?_ ?_⟩
  · intro _ op' hop'
    exact ⟨start, t, copies, hS, hdone, hop', hcopies⟩
  · exact fun _ _ hfalse => hfalse.elim

end Build

/-! ## Whole designs -/

/-- The timeline of a new operator. -/
def Device.start (d : Device) : Timeline where
  period := d.period
  pipelined := d.pipelined

/-- The design makes an operator with these inputs and an output of this width by this work. -/
def Design.Does (d : Design) (ports : List Port) (width : Width) (work : List Float) : Prop :=
  ∃ m : Build Unit, d = m.design ∧ ∀ (lib : Library) (h : Handle) (S : Timeline → Prop),
    Build.Triple lib h (Timeline.Refuses S work) (Progress S [] [] [] []) m
      fun _ => Complete S ports width work

namespace Library

variable {lib : Library} {S : Timeline → Prop} {work : List Float} {ports : List Port}
  {width : Width} {P : Operator → Prop} {name : String} {d : Design}

/-- An operator that was finished after the work was done. -/
def Accomplished (S : Timeline → Prop) (ports : List Port) (width : Width) (work : List Float)
    (op : Operator) : Prop :=
  ∃ start t, S start ∧ start.accrueAll work = .ok t ∧
    op.Shows ports ⟨"R", width, t.criticalPath⟩ t.cycle

/-- What was described is finished. -/
theorem wp_finishing {describe : Action Failure Site Unit} {Q : Operator → Prop} {E : Fault → Prop}
    {s : Site} (h : describe.wp (fun _ s' => s'.operator.schedule = none ∧
        finish.wp (fun _ => Q) (fun e _ => E e) s'.operator) (fun e _ => E e.fault) s) :
    (finishing describe).wp (fun _ s' => Q s'.operator) (fun e _ => E e.fault) s := by
  unfold finishing
  rw [wp_bind]
  refine h.mono ?_ fun _ _ he => he
  rintro - ⟨lib', op'⟩ ⟨hopen, hfinish⟩
  rw [wp_bind, Site.perform, wp_bind, wp_get, wp_zoom]
  refine (wp_perform_of_open hopen).mpr ?_
  simp only [execute]
  rw [wp_bind]
  exact hfinish

/-- What was completed can be finished. -/
theorem wp_finishing_of_triple {m : Build Unit} {op : Operator}
    (hm : Build.Triple lib op.handle (Timeline.Refuses S work) P m
      fun _ => Complete S ports width work)
    (hS : ∀ start t, S start → start.accrueAll work = .ok t → t.pipelined = true → t.Bounded)
    (hop : P op) :
    (finishing (run m.design)).wp (fun _ s => Accomplished S ports width work s.operator)
      (fun e _ => Timeline.Refuses S work e.fault) ⟨lib, op⟩ := by
  refine wp_finishing ((hm.wp_run rfl hop).mono ?_ fun _ _ he => he)
  rintro _ ⟨lib', op'⟩ ⟨-, -, start, t, copies, hstart, hwork, hdescribed, hcopies⟩
  have hfinish := hdescribed.wp_finish hcopies (hS start t hstart hwork)
  refine ⟨hdescribed.unfinished,
    hfinish.mono (fun _ op'' hshows => ?_) fun _ _ hfalse => hfalse.elim⟩
  exact ⟨start, t, hstart, hwork, hshows⟩

theorem isFinished_of_shows {op : Operator} {out : Port} {depth : Nat}
    (h : op.Shows ports out depth) : op.isFinished = true := by
  have hdepth := h.depth_eq
  unfold Operator.depth? at hdepth
  obtain ⟨schedule, hschedule, -⟩ := Option.map_eq_some_iff.mp hdepth
  simp [isFinished, hschedule]

/-- What a design does, building it gives, where its name is free. -/
theorem wp_build_does (hlib : lib.Lawful) (hfree : lib.lookup name = none)
    (hd : d.Does ports width work)
    (hperiod : lib.device.pipelined = true → 0 ≤ lib.device.period) :
    (build name (run d)).wp
      (fun h lib' => ∃ op, lib'.operator? h = some op ∧
        Accomplished (· = lib.device.start) ports width work op)
      (fun e _ => lib.device.start.accrueAll work = .error e.fault) lib := by
  obtain ⟨m, rfl, hm⟩ := hd
  have hbudget : lib.device.start.pipelined = true → lib.device.start.Budgeted := by
    intro hpipelined
    have hstart := Timeline.budgeted_start (hperiod hpipelined)
    rwa [← hpipelined] at hstart
  refine wp_build_of_finishing hlib hfree (builds_run _) fun op lib₁ hres => ?_
  have hop : Progress (· = lib.device.start) [] [] [] [] op := by
    rw [hres.operator]
    exact progress_blank rfl
  refine (wp_finishing_of_triple (hm lib₁ op.handle _) ?_ hop).mono ?_ ?_
  · rintro start t rfl ht hpipelined
    exact (Timeline.budgeted_accrueAll hbudget ht hpipelined).toBounded
  · rintro _ s hdone
    obtain ⟨start, t, hstart, ht, hshows⟩ := hdone
    exact ⟨isFinished_of_shows hshows, start, t, hstart, ht, hshows⟩
  · rintro e _ ⟨start, rfl, herror⟩
    exact herror

/-- What a design does, it does on a new operator whose timeline takes the work. -/
theorem run_of_does (hd : d.Does ports width work) (lib : Library) (handle : Handle) (name : String)
    {period : Float} {pipelined : Bool} {t : Timeline}
    (hwork : Timeline.accrueAll { period, pipelined } work = .ok t) :
    (run d ⟨lib, .blank handle name period pipelined⟩).result = .ok () := by
  obtain ⟨m, rfl, hm⟩ := hd
  have hblank : Operator.Progress (· = { period, pipelined }) [] [] [] []
      (.blank handle name period pipelined) := Operator.progress_blank rfl
  have hrun := (hm lib handle _).wp_run rfl hblank
  cases hresult : (run m.design ⟨lib, .blank handle name period pipelined⟩).result with
  | ok _ => rfl
  | error e =>
      obtain ⟨start, rfl, hrefused⟩ := hrun.of_error hresult
      rw [hwork] at hrefused
      cases hrefused

end Library

end Retime

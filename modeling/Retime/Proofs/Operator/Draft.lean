import Mathlib.Data.List.Forall2
import Retime.Proofs.Dataflow.Plain
import Retime.Proofs.Operator.Instantiate
import Retime.Proofs.Operator.Finish
import Retime.Proofs.Timeline.Calls
import Retime.Proofs.Timeline.Work

/-! # Drafts

An operator under construction, by what was declared, placed and accrued so far. As long as
fresh plain names are declared and no value is read before its cycle, no call on a draft fails,
except that work may not fit the period.
-/

namespace Retime.Operator

open Retime.Action Retime.Timeline Retime.Dataflow

/-- An operator to be, with its input ports, the declared signals, the copies that were placed
and the cycles they deliver in, and its timeline; it has no outputs yet. -/
structure Draft (ports : List Port) (decls : List Declaration) (copies : List (String × Nat))
    (t : Timeline) (op : Operator) : Prop where
  unfinished : op.schedule = none
  tidy : op.flow.Tidy decls
  readable : ∀ decl ∈ decls, decl.role ≠ .output
  inputs : List.Forall₂ (fun id p => op.port? id 0 = some p) op.inputs.toList ports
  outputs : op.outputs = #[]
  copies : op.instances.toList.map (fun i => (i.name, i.outputCycle)) = copies
  timeline : op.timeline = t

/-- An operator whose description is complete but for its end. Its one output is valid in the
current cycle. -/
structure Described (ports : List Port) (out : Port) (copies : List (String × Nat))
    (t : Timeline) (op : Operator) : Prop where
  unfinished : op.schedule = none
  inputs : List.Forall₂ (fun id p => op.port? id 0 = some p) op.inputs.toList ports
  output : ∃ id, op.outputs = #[⟨id, out.delay⟩] ∧ op.port? id out.delay = some out ∧
    ((op.flow.netlist.signal? id).map (·.cycle)) = some t.cycle
  copies : op.instances.toList.map (fun i => (i.name, i.outputCycle)) = copies
  timeline : op.timeline = t

/-- An operator that is finished and shows these ports and this depth. -/
structure Shows (ports : List Port) (out : Port) (depth : Nat) (op : Operator) : Prop where
  depth_eq : op.depth? = some depth
  interface : ∃ sequential, op.interface? =
    some { name := op.name, inputs := ports, outputs := [out], depth, sequential }

variable {op : Operator} {ports : List Port} {decls : List Declaration}
  {copies : List (String × Nat)} {t t' : Timeline} {lib : Library} {name : String} {width : Width}
  {cycle : Nat}

theorem draft_blank (handle : Handle) (name : String) (period : Float) (pipelined : Bool) :
    Draft [] [] [] { period, pipelined } (blank handle name period pipelined) where
  unfinished := rfl
  tidy := tidy_empty
  readable _ hdecl := by cases hdecl
  inputs := .nil
  outputs := rfl
  copies := rfl
  timeline := rfl

theorem port?_of_extends {op op' : Operator} (h : op.flow.netlist.Extends op'.flow.netlist)
    {id : SignalId} {delay : Float} {p : Port} (hp : op.port? id delay = some p) :
    op'.port? id delay = some p := by
  unfold port? at hp ⊢
  cases hs : op.flow.netlist.signal? id with
  | none => simp [hs] at hp
  | some s => rwa [h id s hs, ← hs]

section Draft

variable (h : Draft ports decls copies t op)
include h

/-- The dataflow may change as long as it stays tidy and keeps what is declared. -/
theorem Draft.withFlow {flow : Dataflow} (htidy : flow.Tidy decls)
    (hext : op.flow.netlist.Extends flow.netlist) :
    Draft ports decls copies t { op with flow } where
  unfinished := h.unfinished
  tidy := htidy
  readable := h.readable
  inputs := h.inputs.imp fun _ _ hp => port?_of_extends hext hp
  outputs := h.outputs
  copies := h.copies
  timeline := h.timeline

theorem Draft.withTimeline (t' : Timeline) : Draft ports decls copies t' { op with timeline := t' } where
  unfinished := h.unfinished
  tidy := h.tidy
  readable := h.readable
  inputs := h.inputs
  outputs := h.outputs
  copies := h.copies
  timeline := rfl

/-! ## Declarations -/

/-- A signal that is declared now under a fresh plain name. -/
theorem Draft.wp_declare (decl : Declaration) (hname : Plain decl.name)
    (hfresh : decl.name ∉ decls.map (·.name)) (hdriver : ∀ r depth, decl.driver ≠ .stage r depth)
    (hrole : decl.role ≠ .output) :
    (onFlow (Dataflow.declare decl)).wp
      (fun id op' => Draft ports (decls ++ [decl]) copies t op' ∧
        op'.flow.netlist.signal? id = some ⟨decl, id⟩)
      (fun _ _ => False) op := by
  obtain ⟨hfree, htidy⟩ := h.tidy.declare decl hname hfresh hdriver
  rw [wp_onFlow, Dataflow.wp_declare]
  refine ⟨fun htaken => ?_, fun _ => ⟨⟨h.unfinished, htidy, ?_, ?_, h.outputs, h.copies, h.timeline⟩,
    Netlist.signal?_add_size decl⟩⟩
  · rw [hfree] at htaken
    cases htaken
  · intro decl' hdecl'
    rcases List.mem_append.mp hdecl' with hold | hnew
    · exact h.readable decl' hold
    · exact List.mem_singleton.mp hnew ▸ hrole
  · exact h.inputs.imp fun _ _ hp => port?_of_extends (Netlist.extends_add decl) hp

theorem Draft.wp_internal (hname : Plain name) (hfresh : name ∉ decls.map (·.name))
    (clocking : Clocking) (expr : String) :
    (execute lib (.declare name width clocking expr)).wp
      (fun _ => Draft ports (decls ++ [⟨name, .internal, clocking, width, t.cycle, .expr expr⟩])
        copies t)
      (fun _ _ => False) op := by
  have hdeclare := h.wp_declare ⟨name, .internal, clocking, width, t.cycle, .expr expr⟩
    hname hfresh (by simp) (by simp)
  rw [← h.timeline] at hdeclare ⊢
  simp only [execute, wp_bind, wp_pure, wp_declareHere]
  exact hdeclare.mono (fun _ _ hop => hop.1) fun _ _ hop => hop

theorem Draft.wp_input (hname : Plain name) (hfresh : name ∉ decls.map (·.name)) :
    (execute lib (.input name width)).wp
      (fun _ => Draft (ports ++ [⟨name, width, 0⟩])
        (decls ++ [⟨name, .input, .combinational, width, t.cycle, .port⟩]) copies t)
      (fun _ _ => False) op := by
  have hdeclare := h.wp_declare ⟨name, .input, .combinational, width, t.cycle, .port⟩
    hname hfresh (by simp) (by simp)
  rw [← h.timeline] at hdeclare ⊢
  simp only [execute, addInput, wp_bind, wp_pure, wp_declareHere, wp_modify]
  refine (wp_onFlow.mp hdeclare).mono ?_ fun _ _ hop => hop
  rintro id flow ⟨hop, hid⟩
  refine ⟨hop.unfinished, hop.tidy, hop.readable, ?_, hop.outputs, hop.copies, hop.timeline⟩
  rw [Array.toList_push]
  refine List.rel_append hop.inputs (.cons ?_ .nil)
  simp only [port?] at hid ⊢
  rw [hid]
  rfl

/-! ## Reading -/

theorem Draft.find {decl : Declaration} (hdecl : decl ∈ decls) :
    ∃ s, op.flow.netlist.find decl.name = .ok s ∧ s.toDeclaration = decl ∧
      op.flow.netlist.signal? s.id = some s := by
  obtain ⟨id, hid⟩ := h.tidy.mem hdecl
  have hs := (h.tidy.sound.lawful.id_eq hid).symm ▸ hid
  exact ⟨⟨decl, id⟩, h.tidy.sound.lawful.find_ok.mpr ⟨hs, rfl⟩, rfl, hs⟩

theorem Draft.wp_find {decl : Declaration} (hdecl : decl ∈ decls) {Q : Signal → Operator → Prop}
    {E : Fault → Operator → Prop} (hs : ∀ s, s.toDeclaration = decl →
      op.flow.netlist.signal? s.id = some s → Q s op) :
    (Operator.find decl.name).wp Q E op := by
  obtain ⟨s, hfind, hdeclared, hin⟩ := h.find hdecl
  rw [Operator.wp_find, hfind]
  refine ⟨fun s' hs' => ?_, by simp⟩
  obtain rfl := Except.ok.inj hs'
  exact hs s hdeclared hin

theorem Draft.wp_read {decl : Declaration} (hdecl : decl ∈ decls)
    (hle : decl.cycle ≤ cycle) :
    (read decl.name cycle).wp (fun _ => Draft ports decls copies t) (fun _ _ => False) op := by
  unfold read
  rw [wp_bind]
  refine h.wp_find hdecl fun s hs hin => ?_
  subst hs
  have hnone : s.isStage = false := by
    unfold Signal.isStage
    split
    next r depth hdriver => exact absurd hdriver (h.tidy.nonstage hdecl r depth)
    · rfl
  have hrole := h.readable _ hdecl
  rw [wp_ite]
  refine ⟨fun hout => absurd hout hrole, fun _ => ?_⟩
  rw [wp_bind, wp_onFlow]
  refine (h.tidy.wp_resolve hin hnone hrole hle).mono (fun id d' hd' => ?_) fun _ _ hd' => hd'
  have hop := h.withFlow hd'.1 hd'.2.netlist
  exact ⟨hop.unfinished, hop.tidy, hop.readable, hop.inputs, hop.outputs, hop.copies, hop.timeline⟩

/-- What is declared can be read from its own cycle on. -/
theorem Draft.wp_consume {decl : Declaration} (hdecl : decl ∈ decls) (hle : decl.cycle ≤ t.cycle) :
    (consume decl.name).wp (fun _ => Draft ports decls copies t) (fun _ _ => False) op := by
  unfold consume
  rw [wp_bind, wp_get, wp_bind, h.timeline]
  exact h.wp_read hdecl hle

theorem Draft.wp_consumeField {decl : Declaration} (hdecl : decl ∈ decls)
    (hle : decl.cycle ≤ t.cycle) {field : FloatField} {range : BitRange}
    (hrange : decl.width.fieldRange? field = some range) :
    (consumeField decl.name field).wp (fun _ => Draft ports decls copies t) (fun _ _ => False) op := by
  unfold consumeField
  rw [wp_bind]
  refine h.wp_find hdecl fun s hs hin => ?_
  subst hs
  rw [hrange]
  dsimp only
  rw [wp_bind]
  exact h.wp_consume hdecl hle

/-! ## Time -/

/-- Work moves the timeline, or stops as the timeline does. -/
theorem Draft.wp_accrue (x : Float) :
    (accrue x).wp (fun _ op' => ∃ t', t.move (.accrue x) = .ok t' ∧ Draft ports decls copies t' op')
      (fun e _ => t.move (.accrue x) = .error e) op := by
  unfold accrue
  rw [wp_bind, wp_get, wp_bind, wp_ofExcept, h.timeline]
  refine ⟨fun r hr => ?_, fun e he => by simp [move, he, Except.map]⟩
  have hop : ∃ t', t.move (.accrue x) = .ok t' ∧
      Draft ports decls copies t' { op with timeline := r.2 } :=
    ⟨r.2, by simp [move, hr, Except.map], h.withTimeline r.2⟩
  obtain ⟨accrual, t'⟩ := r
  cases accrual <;> simpa using hop

theorem Draft.wp_join {decl : Declaration} (hdecl : decl ∈ decls) :
    (execute lib (.join decl.name)).wp (fun _ => Draft ports decls copies (t.join decl.cycle))
      (fun _ _ => False) op := by
  simp only [execute]
  rw [wp_bind]
  refine h.wp_find hdecl fun s hs hin => ?_
  subst hs
  simp only [wp_bind, wp_pure, wp_onTimeline, h.timeline]
  refine ⟨fun t' ht' => ?_, by simp⟩
  obtain rfl := Except.ok.inj ht'
  exact h.withTimeline _

/-! ## Copies -/

theorem Draft.wp_connectInput {itf : Interface} {wiring : Wiring} {formal : Port}
    {decl : Declaration} (hdecl : decl ∈ decls)
    (hbound : wiring.inputs.lookup formal.name = some (.signal decl.name))
    (hwidth : decl.width.bits = formal.width.bits) (hle : decl.cycle ≤ cycle) :
    (connectInput itf wiring cycle formal).wp (fun _ => Draft ports decls copies t)
      (fun _ _ => False) op := by
  unfold connectInput
  rw [hbound]
  dsimp only
  rw [wp_bind]
  refine h.wp_find hdecl fun s hs hin => ?_
  subst hs
  rw [wp_ite]
  refine ⟨fun hne => absurd hwidth hne, fun _ => ?_⟩
  rw [wp_bind]
  exact h.wp_read hdecl hle

/-- An output becomes a signal that is valid in the cycle in which its value arrives. -/
theorem Draft.wp_connectOutput {wiring : Wiring} {p : Port} {out : String}
    (hbound : wiring.outputs.lookup p.name = some out) (hplain : Plain out)
    (hfresh : out ∉ decls.map (·.name)) (harrive : t.arrive cycle p.delay = .ok t') (place : Nat) :
    (connectOutput wiring place cycle p).wp
      (fun _ => Draft ports (decls ++ [driven place cycle p out]) copies t')
      (fun _ _ => False) op := by
  unfold connectOutput
  rw [hbound]
  dsimp only
  rw [wp_bind]
  have hdeclare := h.wp_declare (driven place cycle p out) hplain hfresh
    (by simp [driven]) (by simp [driven])
  refine hdeclare.mono ?_ fun _ _ hop => hop
  rintro id op' ⟨hop, -⟩
  rw [wp_bind, wp_onTimeline, hop.timeline, harrive]
  refine ⟨fun t₁ ht₁ => ?_, by simp⟩
  obtain rfl := Except.ok.inj ht₁
  exact hop.withTimeline t'

/-- A copy with one output, whose inputs are there, and whose output arrives in time. -/
theorem Draft.wp_instantiate {sub : Handle} {wiring : Wiring} {itf : Interface} {p : Port}
    {out : String} (hname : name ∉ copies.map (·.1)) (hitf : op.subInterface lib sub = .ok itf)
    (hcheck : wiring.check itf = .ok ())
    (hinputs : ∀ formal ∈ itf.inputs, ∃ decl ∈ decls,
      wiring.inputs.lookup formal.name = some (.signal decl.name) ∧
        decl.width.bits = formal.width.bits ∧ decl.cycle ≤ t.cycle)
    (houtputs : itf.outputs = [p]) (hbound : wiring.outputs.lookup p.name = some out)
    (hplain : Plain out) (hfresh : out ∉ decls.map (·.name))
    (hlater : laterCycle t.cycle itf.depth = .ok cycle) (harrive : t.arrive cycle p.delay = .ok t') :
    (execute lib (.instantiate sub name wiring)).wp
      (fun _ => Draft ports (decls ++ [driven copies.length cycle p out])
        (copies ++ [(name, cycle)]) t')
      (fun _ _ => False) op := by
  have hsize : op.instances.size = copies.length := by
    rw [← h.copies, List.length_map, Array.length_toList]
  have hnew : op.instances.any (·.name = name) = false := by
    rw [Array.any_eq_false']
    intro i hi
    rw [← h.copies, List.map_map] at hname
    exact fun hsame => hname (List.mem_map.mpr ⟨i, Array.mem_toList_iff.mpr hi, by simpa using hsame⟩)
  have hadmits : op.Admits lib sub name wiring itf cycle :=
    ⟨hnew, hitf, hcheck, h.timeline ▸ hlater⟩
  refine wp_bind.mpr (hadmits.wp_instantiate ?_)
  rw [h.timeline]
  have hins : (forEach (connectInput itf wiring t.cycle) itf.inputs).wp
      (fun _ => Draft ports decls copies t) (fun _ _ => False) op := by
    refine wp_forEach (fun _ _ => Draft ports decls copies t) h ?_
    intro done formal rest _ op' hitems hop
    obtain ⟨decl, hdecl, hbound, hwidth, hle⟩ := hinputs formal (by simp [← hitems])
    exact hop.wp_connectInput hdecl hbound hwidth hle
  refine hins.mono (fun inputs op₁ hop₁ => ?_) fun _ _ hop => hop
  rw [houtputs, hsize]
  simp only [forEach, wp_bind, wp_pure]
  refine (hop₁.wp_connectOutput hbound hplain hfresh harrive _).mono ?_ fun _ _ hop => hop
  intro output op₂ hop₂
  refine ⟨hop₂.unfinished, hop₂.tidy, hop₂.readable, hop₂.inputs, hop₂.outputs, ?_, hop₂.timeline⟩
  simp [← hop₂.copies]

/-! ## The output -/

/-- The one output is declared in the current cycle, with the critical path as its delay. -/
theorem Draft.wp_output (hname : Plain name) (hfresh : name ∉ decls.map (·.name)) (expr : String) :
    (execute lib (.output name width expr)).wp
      (fun _ => Described ports ⟨name, width, t.criticalPath⟩ copies t)
      (fun _ _ => False) op := by
  obtain ⟨hfree, htidy⟩ := h.tidy.declare
    ⟨name, .output, .combinational, width, t.cycle, .expr expr⟩ hname hfresh (by simp)
  rw [← h.timeline] at hfree htidy ⊢
  simp only [execute, addOutput, wp_bind, wp_pure, wp_declareHere, wp_modify, Dataflow.wp_declare]
  refine ⟨fun htaken => ?_, fun _ => ?_⟩
  · rw [hfree] at htaken
    cases htaken
  · refine ⟨h.unfinished, ?_, ⟨op.flow.netlist.size, ?_, ?_, ?_⟩, h.copies, rfl⟩
    · exact h.inputs.imp fun _ _ hp => port?_of_extends (Netlist.extends_add _) hp
    · simp [h.outputs]
    · simp [port?]
    · simp

end Draft

/-! ## The end -/

theorem filterMap_of_forall₂ {α β : Type} {f : α → Option β} {l : List α} {l' : List β}
    (h : List.Forall₂ (fun a b => f a = some b) l l') : l.filterMap f = l' := by
  induction h with
  | nil => rfl
  | cons hab _ ih => rw [List.filterMap_cons_some hab, ih]

section Described

variable {out : Port}

/-- The output is exposed where it was declared if all copies deliver by then. -/
theorem Described.exposure (h : Described ports out copies t op)
    (hcopies : ∀ c ∈ copies, c.2 ≤ t.cycle) : op.exposure = t.cycle := by
  obtain ⟨id, houtputs, -, hcycle⟩ := h.output
  obtain ⟨s, hs, hcycle⟩ := Option.map_eq_some_iff.mp hcycle
  refine (exposure_of_single houtputs hs fun i hi => ?_).trans hcycle
  rw [hcycle]
  apply hcopies (i.name, i.outputCycle)
  rw [← h.copies]
  exact List.mem_map.mpr ⟨i, Array.mem_toList_iff.mpr hi, rfl⟩

theorem layOut_of_bounded_of_pipelined (hbounded : op.timeline.pipelined = true → op.timeline.Bounded)
    (depth : Nat) (outputs : List ExposedOutput) :
    ∃ schedule, op.layOut depth outputs = .ok schedule := by
  cases hpipelined : op.timeline.pipelined with
  | true => exact layOut_of_bounded (hbounded hpipelined) depth outputs
  | false =>
      cases hlaid : op.layOut depth outputs with
      | ok schedule => exact ⟨schedule, rfl⟩
      | error e => exact absurd hlaid (layOut_ne_error hpipelined e)

theorem Described.shows (h : Described ports out copies t op) {schedule : Schedule}
    (hdelays : schedule.outputDelays = [out.delay]) :
    Shows ports out schedule.depth { op with schedule := some schedule } := by
  obtain ⟨id, houtputs, hport, -⟩ := h.output
  have hinputs := filterMap_of_forall₂ h.inputs
  refine ⟨rfl, schedule.sequential, ?_⟩
  unfold interface?
  simp only [Option.map_some, Option.some.injEq, Interface.mk.injEq, true_and, and_true]
  refine ⟨hinputs, ?_⟩
  simp only [port?] at hport ⊢
  simp [houtputs, hdelays, hport]

/-- What can be laid out is finished in its current cycle. -/
theorem Described.wp_finish_shows (h : Described ports out copies t op)
    (hcopies : ∀ c ∈ copies, c.2 ≤ t.cycle) :
    finish.wp (fun _ => Shows ports out t.cycle)
      (fun e _ => op.layOut op.exposure [⟨out.delay, none⟩] = .error e) op := by
  obtain ⟨id, houtputs, hport, hcycle⟩ := h.output
  obtain ⟨s, hs, hcycle⟩ := Option.map_eq_some_iff.mp hcycle
  have hexposure := h.exposure hcopies
  obtain ⟨hdirect, hexposed⟩ := direct_of_single houtputs hs (hcycle.trans hexposure.symm)
  rw [← hexposed]
  refine (wp_finish_direct hdirect).mono ?_ fun _ _ he => he.2
  rintro - _ ⟨schedule, hlaid, rfl⟩
  rw [hexposed] at hlaid
  rw [← hexposure, ← (laidOut hlaid).depth_eq]
  exact h.shows (laidOut hlaid).outputDelays_eq

/-- A described operator can be finished if its work fits. -/
theorem Described.wp_finish (h : Described ports out copies t op)
    (hcopies : ∀ c ∈ copies, c.2 ≤ t.cycle) (hbounded : t.pipelined = true → t.Bounded) :
    finish.wp (fun _ => Shows ports out t.cycle) (fun _ _ => False) op := by
  rw [← h.timeline] at hbounded
  obtain ⟨schedule, hschedule⟩ :=
    layOut_of_bounded_of_pipelined hbounded op.exposure [⟨out.delay, none⟩]
  refine (h.wp_finish_shows hcopies).mono (fun _ _ hshows => hshows) fun e _ hfailed => ?_
  rw [hschedule] at hfailed
  cases hfailed

end Described

end Retime.Operator

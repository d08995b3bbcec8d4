import Retime.Proofs.Library.Batch
import Retime.Proofs.Library.Peaks
import Retime.Proofs.Verilog.SingleDriver

/-! # Copies and the modules they copy

An instance holds the interface of an operator as it was seen when the instance was placed;
the ports of its module are printed later, from its signals and its schedule. Both come from
one operator that does not change any more, so a copy is connected port by port.
-/

namespace Retime

open Verilog

/-- The declaration of a port. -/
def Port.declaration (p : Port) (direction : Direction) : PortDeclaration :=
  { direction, width := p.width.bits, name := p.name }

namespace Operator

/-- An input connected by an instance of `op` stands at its port, and a signal there has the
width of the port. -/
def Feeds (op : Operator) (p : PortDeclaration) (entry : String × Actual) : Prop :=
  p.direction = .input ∧ p.name = entry.1 ∧ ∀ id, entry.2 = .signal id →
    ∃ s, op.flow.netlist.signal? id = some s ∧ s.width.bits = p.width

/-- An output connected by an instance of `op` stands at its port, and a signal there has the
width of the port. -/
def Drains (op : Operator) (p : PortDeclaration) (entry : String × Option SignalId) : Prop :=
  p.direction = .output ∧ p.name = entry.1 ∧ ∀ id, entry.2 = some id →
    ∃ s, op.flow.netlist.signal? id = some s ∧ s.width.bits = p.width

/-- The copy that stands for `inst` in the module `m` of `op` is one of the module `sub`. -/
structure Matches (op : Operator) (m : Module) (inst : Instance) (sub : Module) : Prop where
  moduleName : (op.copy inst).moduleName = sub.name
  formals : (op.copy inst).connections.map (·.1) = sub.ports.map (·.name)
  /-- Clock and reset come first if the copied module has them, and the copying one has
  them as well then. -/
  ports : ∃ inputs outputs, sub.ports =
    (if inst.interface.sequential then controlPorts.map fun name => ⟨.input, 1, name⟩ else [])
      ++ inputs ++ outputs ∧
    List.Forall₂ op.Feeds inputs inst.inputs ∧ List.Forall₂ op.Drains outputs inst.outputs
  control : inst.interface.sequential = true →
    (controlPorts.map fun name => (⟨.input, 1, name⟩ : PortDeclaration)) ⊆ m.ports

variable {op sub : Operator} {lib : Library} {schedule : Schedule} {inst : Instance}

/-- The ports of a module are those that the interface shows. -/
theorem portDeclarations_eq {itf : Interface} (hitf : sub.interface? = some itf)
    (hschedule : sub.schedule = some schedule)
    (hdelays : schedule.outputDelays.length = sub.outputs.size) :
    sub.portDeclarations schedule.sequential =
      (if itf.sequential then controlPorts.map fun name => ⟨.input, 1, name⟩ else [])
        ++ itf.inputs.map (·.declaration .input) ++ itf.outputs.map (·.declaration .output) := by
  unfold interface? at hitf
  rw [hschedule, Option.map_some] at hitf
  obtain rfl := Option.some.inj hitf
  have hport : ∀ direction delay id, (sub.port? id delay).map (·.declaration direction) =
      sub.portDeclaration? direction id := by
    intro direction delay id
    rw [port?, Option.map_map]
    rfl
  have houtputs : (sub.outputs.toList.zip schedule.outputDelays).filterMap
        (fun entry => sub.portDeclaration? .output entry.1.signal) =
      sub.outputs.toList.filterMap fun out => sub.portDeclaration? .output out.signal := by
    have hfst : (sub.outputs.toList.zip schedule.outputDelays).map Prod.fst =
        sub.outputs.toList := List.map_fst_zip (by rw [hdelays, Array.length_toList])
    conv_rhs => rw [← hfst]
    rw [List.filterMap_map]
    rfl
  unfold portDeclarations
  simp only [List.map_filterMap, hport, houtputs]

theorem Linked.outputDelays_length (hop : op.Linked lib) (hschedule : op.schedule = some schedule) :
    schedule.outputDelays.length = op.outputs.size := by
  obtain ⟨exposed, hlaid, hlength⟩ := hop.schedule hschedule
  rw [hlaid.outputDelays_eq, List.length_map, hlength]

theorem Linked.copies_perm (hop : op.Linked lib) (hschedule : op.schedule = some schedule) :
    (op.moduleOf schedule).copies.Perm (op.instances.toList.map op.copy) := by
  obtain ⟨exposed, hlaid, -⟩ := hop.schedule hschedule
  exact hlaid.copies_perm fun hi => (hop.instances hi).id_eq

/-- An operator needs clock and reset if one of its instances does. -/
theorem Linked.sequential_of_mem (hop : op.Linked lib) (hschedule : op.schedule = some schedule)
    (hinst : inst ∈ op.instances) (hsequential : inst.interface.sequential = true) :
    schedule.sequential = true := by
  obtain ⟨exposed, hlaid, -⟩ := hop.schedule hschedule
  exact hlaid.sequential_eq.mpr (.inr (.inr (Array.any_eq_true'.mpr ⟨inst, hinst, hsequential⟩)))

/-- A linked instance is a copy of the module of the operator whose interface it holds. -/
theorem Linked.copy_matches {subSchedule : Schedule} (hop : op.Linked lib)
    (hschedule : op.schedule = some schedule) (hinst : inst ∈ op.instances)
    (hsub : sub.Linked lib) (hsubSchedule : sub.schedule = some subSchedule)
    (hitf : sub.interface? = some inst.interface) :
    op.Matches (op.moduleOf schedule) inst (sub.moduleOf subSchedule) := by
  obtain ⟨place, hlinked⟩ := hop.of_mem hinst
  have hports : (sub.moduleOf subSchedule).ports = _ :=
    portDeclarations_eq hitf hsubSchedule (hsub.outputDelays_length hsubSchedule)
  have hfeeds : List.Forall₂ op.Feeds (inst.interface.inputs.map (·.declaration .input))
      inst.inputs := by
    rw [List.forall₂_map_left_iff]
    refine hlinked.inputs.imp fun p entry htakes => ?_
    cases htakes with
    | constant text => exact ⟨rfl, rfl, nofun⟩
    | signal s mem role cycle_eq width =>
        refine ⟨rfl, rfl, fun id hid => ?_⟩
        cases hid
        exact ⟨s, mem, width⟩
  have hdrains : List.Forall₂ op.Drains (inst.interface.outputs.map (·.declaration .output))
      inst.outputs := by
    rw [List.forall₂_map_left_iff]
    refine hlinked.outputs.imp fun p entry hgives => ?_
    cases hgives with
    | unbound => exact ⟨rfl, rfl, nofun⟩
    | signal s mem role width =>
        refine ⟨rfl, rfl, fun id hid => ?_⟩
        cases hid
        exact ⟨s, mem, width⟩
  constructor
  · unfold interface? at hitf
    rw [hsubSchedule, Option.map_some] at hitf
    exact (congrArg Interface.name (Option.some.inj hitf)).symm
  · -- the names at both sides are compared entry by entry
    have hinputs : (inst.interface.inputs.map (·.declaration .input)).map (·.name) =
        inst.inputs.map (·.1) :=
      map_eq_map_of_forall₂ hfeeds fun _ _ hfeed => hfeed.2.1
    have houtputs : (inst.interface.outputs.map (·.declaration .output)).map (·.name) =
        inst.outputs.map (·.1) :=
      map_eq_map_of_forall₂ hdrains fun _ _ hdrain => hdrain.2.1
    rw [hports, List.map_append, List.map_append, hinputs, houtputs]
    unfold copy
    split <;> simp [Function.comp_def]
  · exact ⟨_, _, hports, hfeeds, hdrains⟩
  · intro hsequential p hp
    have hparent := hop.sequential_of_mem hschedule hinst hsequential
    simp only [moduleOf, portDeclarations, hparent, if_true]
    exact List.mem_append_left _ (List.mem_append_left _ hp)

end Operator

namespace Library

variable {lib : Library} {op : Operator} {inst : Instance}

/-- What an operator has instances of is emitted before it. -/
theorem Founded.exists_sub (hlib : lib.Founded) {before after : List Operator}
    (hsplit : lib.emission = before ++ op :: after) (hinst : inst ∈ op.instances) :
    ∃ sub ∈ before, lib.operator? inst.sub = some sub ∧
      sub.interface? = some inst.interface := by
  have hin : op ∈ lib.emission := by
    rw [hsplit]
    simp
  have hop := hlib.toLawful.handle_of_mem_emission hin
  obtain ⟨sub, hsub, hitf⟩ := (hlib.linked hop).committed hinst
  have horder : lib.emissionOrder =
      before.map (·.handle) ++ op.handle :: after.map (·.handle) := by
    rw [← hlib.toLawful.map_handle_emission, hsplit, List.map_append, List.map_cons]
  obtain ⟨sub', hbefore, hhandle⟩ := List.mem_map.mp (hlib.leavesFirst _ _ _ horder op hop inst hinst)
  have hin' : sub' ∈ lib.emission := by
    rw [hsplit]
    exact List.mem_append_left _ hbefore
  have hsub' := hlib.toLawful.handle_of_mem_emission hin'
  rw [hhandle, hsub] at hsub'
  obtain rfl := Option.some.inj hsub'
  exact ⟨sub, hbefore, hsub, hitf⟩

/-- Whatever is done in a workshop, each committed operator is emitted once, and the batch has
one file for each of them in the order of emission, under a name of its own. The copies in the
module of an operator are those of its instances, and every one of them is a copy of a module
that is emitted before, connected port by port. -/
theorem copies_agree_with_modules (settings : Settings) (device : Device)
    (steps : List Workshop.Step) :
    let lib := ((Workshop.empty settings device).after steps).library
    (lib.emission.Nodup ∧ ∀ op, op ∈ lib.emission ↔ ∃ h, lib.operator? h = some op) ∧
    (∃ files, lib.batch = .ok files ∧ (files.map (·.fileName)).Nodup ∧
      List.Forall₂ (fun op file => ∃ m, op.toModule = .ok m ∧ file.name = m.name ∧
        file.text = m.text) lib.emission files) ∧
    ∀ before op after, lib.emission = before ++ op :: after →
      ∃ m, op.toModule = .ok m ∧ m.copies.Perm (op.instances.toList.map op.copy) ∧
        ∀ inst ∈ op.instances, ∃ sub ∈ before, ∃ copied, sub.toModule = .ok copied ∧
          op.Matches m inst copied := by
  intro lib
  have hlib : lib.Founded := (Workshop.sound_after_empty settings device steps).library
  refine ⟨⟨hlib.nodup_emission, fun op => hlib.mem_emission⟩, ?_, fun before op after hsplit => ?_⟩
  · obtain ⟨files, hbatch, hfiles⟩ := hlib.toLawful.batch
    refine ⟨files, hbatch, hlib.toLawful.nodup_fileNames hfiles, hfiles.imp fun op file hfile => ?_⟩
    exact ModuleFile.ofOperator_eq_ok hfile
  · have hin : op ∈ lib.emission := by
      rw [hsplit]
      simp
    obtain ⟨schedule, hschedule, hm⟩ := hlib.toLawful.toModule hin
    have hop := hlib.linked (hlib.toLawful.handle_of_mem_emission hin)
    refine ⟨_, hm, hop.copies_perm hschedule, fun inst hinst => ?_⟩
    obtain ⟨sub, hbefore, hsub, hitf⟩ := hlib.exists_sub hsplit hinst
    have hin' : sub ∈ lib.emission := hlib.toLawful.mem_emission.mpr ⟨inst.sub, hsub⟩
    obtain ⟨subSchedule, hsubSchedule, hcopied⟩ := hlib.toLawful.toModule hin'
    exact ⟨sub, hbefore, _, hcopied,
      hop.copy_matches hschedule hinst (hlib.linked hsub) hsubSchedule hitf⟩

/-- The copy of the delayed inverter in its reader agrees with the module of the inverter, which
is emitted before. -/
theorem copies_agree_with_modules_of_reader :
    let settings : Settings := { frequencyMhz := 250 }
    let lib := ((Workshop.empty settings (.ofSettings settings)).after
      (Workshop.delayedSteps (Operator.readerCalls ++ [.finish]) ++ [.commit 0])).library
    ∃ before op after m, lib.emission = before ++ op :: after ∧ op.toModule = .ok m ∧
      ∃ inst ∈ op.instances, inst.interface = Operator.delayedInterface ∧
        ∃ sub ∈ before, ∃ copied, sub.toModule = .ok copied ∧ op.Matches m inst copied := by
  intro settings lib
  obtain ⟨lib₁, hitf, hw⟩ := Workshop.after_delayedSteps (Operator.readerCalls ++ [.finish])
  have hsound := Workshop.sound_after_empty settings (.ofSettings settings)
    (Workshop.delayedSteps (Operator.readerCalls ++ [.finish]))
  let op := Operator.reader lib₁ (Operator.readerCalls ++ [.finish])
  have hw' : (Workshop.empty settings (.ofSettings settings)).after _ = ⟨lib₁, [op]⟩ := hw
  rw [hw'] at hsound
  -- the reader is finished, and holds the copy
  have hreader := (Operator.isReader_reader hitf).2
  obtain ⟨inst, hinstances, hinterface, -⟩ := hreader.instances
  obtain ⟨schedule, -, hfinish⟩ := hreader.leads_finish lib₁
  have hop : op = { Operator.reader lib₁ Operator.readerCalls with schedule := some schedule } :=
    hfinish.2
  have hinst : inst ∈ op.instances := by simp [hop, hinstances]
  obtain ⟨lib₂, hcom, hcommit⟩ := Workshop.after_commit
    (hsound.awaits op (List.mem_singleton_self op)) (hop ▸ rfl) []
  have hlib : lib = lib₂ := by
    show (Workshop.after _ _).library = _
    rw [Workshop.after_append, hw', hcommit]
    rfl
  obtain ⟨⟨-, hemitted⟩, -, hagrees⟩ :=
    copies_agree_with_modules settings (.ofSettings settings)
      (Workshop.delayedSteps (Operator.readerCalls ++ [.finish]) ++ [.commit 0])
  have hin : op ∈ lib.emission := by
    apply (hemitted op).mpr
    refine ⟨op.handle, ?_⟩
    show lib.operator? op.handle = some op
    rw [hlib, hcom.operator?, if_pos rfl]
  obtain ⟨before, after, hsplit⟩ := List.append_of_mem hin
  obtain ⟨m, hm, -, hcopies⟩ := hagrees before op after hsplit
  exact ⟨before, op, after, m, hsplit, hm, inst, hinst, hinterface, hcopies inst hinst⟩

end Library

end Retime

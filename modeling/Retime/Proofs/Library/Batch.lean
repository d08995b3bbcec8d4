import Retime.Library.Batch
import Retime.Proofs.Library.Emission
import Retime.Proofs.Verilog.Structure

/-! # Batches of files

Whatever was done to a library, every committed operator can be written, and a batch has one
file for each of them, in the order of emission, under a name of its own.
-/

namespace Retime

theorem Operator.name_of_toModule {op : Operator} {m : Verilog.Module}
    (hm : op.toModule = .ok m) : m.name = op.name := by
  unfold toModule at hm
  split at hm
  · cases hm
    rfl
  · cases hm

/-- A file is that of the module of its operator. -/
theorem ModuleFile.ofOperator_eq_ok {op : Operator} {file : ModuleFile}
    (hfile : ofOperator op = .ok file) :
    ∃ m, op.toModule = .ok m ∧ file.name = m.name ∧ file.text = m.text := by
  unfold ofOperator Operator.toVerilog at hfile
  cases hm : op.toModule with
  | error e =>
      rw [hm] at hfile
      cases hfile
  | ok m =>
      rw [hm] at hfile
      cases hfile
      exact ⟨m, rfl, (Operator.name_of_toModule hm).symm, rfl⟩

namespace Library

variable {lib : Library} {op : Operator}

section Lawful

variable (hlib : lib.Lawful)
include hlib

theorem Lawful.mem_emission : op ∈ lib.emission ↔ ∃ h, lib.operator? h = some op := by
  rw [emission, List.mem_filterMap]
  exact ⟨fun ⟨h, _, hop⟩ => ⟨h, hop⟩, fun ⟨h, hop⟩ => ⟨h, hlib.mem_emissionOrder.mpr ⟨op, hop⟩, hop⟩⟩

theorem Lawful.handle_of_mem_emission (hop : op ∈ lib.emission) :
    lib.operator? op.handle = some op := by
  obtain ⟨h, hop⟩ := hlib.mem_emission.mp hop
  exact (hlib.operator?_spec hop).2.1 ▸ hop

/-- The operators stand in the order of their handles in the order of emission. -/
theorem Lawful.map_handle_emission : lib.emission.map (·.handle) = lib.emissionOrder := by
  rw [emission, List.map_filterMap]
  refine (List.filterMap_congr fun h hh => ?_).trans List.filterMap_some
  obtain ⟨op, hop⟩ := hlib.mem_emissionOrder.mp hh
  rw [hop, Option.map_some, (hlib.operator?_spec hop).2.1]

theorem Lawful.nodup_emission : lib.emission.Nodup :=
  List.Nodup.of_map _ (hlib.map_handle_emission ▸ lib.nodup_emissionOrder)

theorem Lawful.nodup_emission_names : (lib.emission.map (·.name)).Nodup := by
  refine List.Nodup.map_on (fun op hop op' hop' hname => ?_) hlib.nodup_emission
  -- a name leads to one handle, and a handle to one operator
  have hfound := hlib.find?_of_operator? (hlib.handle_of_mem_emission hop)
  have hfound' := hlib.find?_of_operator? (hlib.handle_of_mem_emission hop')
  rw [hname, hfound', Option.some.injEq, Prod.mk.injEq] at hfound
  exact hfound.2.symm

/-- Committed operators have modules. -/
theorem Lawful.toModule (hop : op ∈ lib.emission) : ∃ schedule, op.schedule = some schedule ∧
    op.toModule = .ok (op.moduleOf schedule) := by
  obtain ⟨hfinished, -⟩ := hlib.operator?_spec (hlib.handle_of_mem_emission hop)
  obtain ⟨schedule, hschedule⟩ := Option.isSome_iff_exists.mp hfinished
  exact ⟨schedule, hschedule, Operator.toModule_of_schedule hschedule⟩

theorem Lawful.batch : ∃ files, lib.batch = .ok files ∧
    List.Forall₂ (fun op file => ModuleFile.ofOperator op = .ok file) lib.emission files := by
  refine mapM_of_forall fun op hop => ?_
  obtain ⟨schedule, -, hm⟩ := hlib.toModule hop
  unfold ModuleFile.ofOperator Operator.toVerilog
  rw [hm]
  exact ⟨_, rfl⟩

/-- The files of a batch have names of their own. -/
theorem Lawful.nodup_fileNames {files : List ModuleFile}
    (hfiles : List.Forall₂ (fun op file => ModuleFile.ofOperator op = .ok file) lib.emission files) :
    (files.map (·.fileName)).Nodup := by
  have hnames : lib.emission.map (·.name) = files.map (·.name) := by
    refine map_eq_map_of_forall₂ hfiles fun op file hfile => ?_
    obtain ⟨m, hm, hname, -⟩ := ModuleFile.ofOperator_eq_ok hfile
    rw [hname, Operator.name_of_toModule hm]
  have hsplit : files.map (·.fileName) = (files.map (·.name)).map (· ++ ".v") := by
    rw [List.map_map]
    rfl
  rw [hsplit, ← hnames]
  exact hlib.nodup_emission_names.map fun name name' => (String.append_left_inj ".v").mp

end Lawful

end Library

end Retime

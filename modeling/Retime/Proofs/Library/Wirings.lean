import Retime.Proofs.Operator.References
import Retime.Proofs.Verilog.Identifiers

/-! # Wirings of committed operators

The ports of a committed operator have distinct names. So a wiring is accepted if and only if it
names every input once and some outputs once, in whatever order. Then nothing is left open when
the inputs are connected, and each entry of the wiring is the one that is found for one port.
-/

namespace Retime

/-- No two ports have the same name. -/
def Interface.Distinct (itf : Interface) : Prop :=
  (itf.inputs.map (·.name) ++ itf.outputs.map (·.name)).Nodup

/-- The fault of an input that is connected to nothing. -/
def Fault.LeavesOpen (e : Fault) : Prop :=
  ∃ operator formal, e = .unboundPort operator formal

theorem Fault.OfReading.not_leavesOpen {e : Fault} (h : e.OfReading) : ¬ e.LeavesOpen := by
  rintro ⟨operator, formal, rfl⟩
  cases h with
  | signals h => cases h

/-! ## Entries -/

namespace Wiring

section Entries

variable {α : Type} {entries : List (String × α)} {formal : String} {a : α} {i : Nat}

/-- The entry at `i` is the first one for the formal. -/
def Takes (entries : List (String × α)) (formal : String) (i : Nat) : Prop :=
  entries.findIdx? (·.1 = formal) = some i

theorem takes_iff : Takes entries formal i ↔ ∃ h : i < entries.length, entries[i].1 = formal ∧
    ∀ j (hji : j < i), entries[j].1 ≠ formal := by
  simp [Takes, List.findIdx?_eq_some_iff_getElem]

/-- What is found for a formal is the first entry for it. -/
theorem lookup_eq_some_iff_takes : entries.lookup formal = some a ↔
    ∃ i, Takes entries formal i ∧ entries[i]? = some (formal, a) := by
  constructor
  · intro hlookup
    obtain ⟨before, rest, rfl, hbefore⟩ := List.lookup_eq_some_iff.mp hlookup
    refine ⟨before.length, takes_iff.mpr ⟨by simp, by simp, fun j hj hsame => ?_⟩, by simp⟩
    rw [List.getElem_append_left hj] at hsame
    have hother := hbefore _ (List.getElem_mem hj)
    simp [hsame] at hother
  · rintro ⟨i, htakes, hentry⟩
    obtain ⟨_, -, hfirst⟩ := takes_iff.mp htakes
    obtain ⟨hi, hentry⟩ := List.getElem?_eq_some_iff.mp hentry
    refine List.lookup_eq_some_iff.mpr ⟨entries.take i, entries.drop (i + 1), ?_, ?_⟩
    · rw [← hentry, List.getElem_cons_drop, List.take_append_drop]
    · intro entry hmem
      obtain ⟨j, hj, rfl⟩ := List.mem_take_iff_getElem.mp hmem
      exact bne_iff_ne.mpr (hfirst j (Nat.lt_of_lt_of_le hj (Nat.min_le_left _ _))).symm

/-- If ports and entries are distinct, and each entry is for a port, it is found for this port
alone. -/
theorem existsUnique_takes {ports : List Port} (hports : (ports.map (·.name)).Nodup)
    (hentries : (entries.map (·.1)).Nodup) (hof : ∀ entry ∈ entries, ∃ p ∈ ports, p.name = entry.1)
    (hi : i < entries.length) : ∃! p, p ∈ ports ∧ Takes entries p.name i := by
  obtain ⟨p, hp, hname⟩ := hof entries[i] (List.getElem_mem hi)
  have hlookup := (lookup_iff_mem hentries).mpr (List.getElem_mem hi)
  obtain ⟨j, htakes, hj⟩ := lookup_eq_some_iff_takes.mp hlookup
  obtain ⟨hlt, hsame⟩ := List.getElem?_eq_some_iff.mp hj
  obtain rfl : j = i := hentries.of_map.getElem_inj_iff.mp hsame
  refine ⟨p, ⟨hp, hname ▸ htakes⟩, fun p' hp' => ?_⟩
  obtain ⟨_, hname', -⟩ := takes_iff.mp hp'.2
  exact List.inj_on_of_nodup_map hports hp'.1 hp (hname'.symm.trans hname.symm)

end Entries

/-! ## Accepted wirings -/

variable {wiring : Wiring} {itf : Interface}

/-- All ports that have to be connected are found, and every entry is found for one port. -/
structure Used (wiring : Wiring) (itf : Interface) : Prop where
  found : ∀ p ∈ itf.inputs, ∃ source, wiring.inputs.lookup p.name = some source
  inputs : ∀ i < wiring.inputs.length, ∃! p, p ∈ itf.inputs ∧ Takes wiring.inputs p.name i
  outputs : ∀ i < wiring.outputs.length, ∃! p, p ∈ itf.outputs ∧ Takes wiring.outputs p.name i

section Distinct

variable (hdistinct : itf.Distinct)
include hdistinct

/-- The connected outputs have the names of no inputs. -/
theorem matches_iff : wiring.Matches itf ↔
    (wiring.inputs.map (·.1)).Perm (itf.inputs.map (·.name)) ∧ (wiring.outputs.map (·.1)).Nodup ∧
      wiring.outputs.map (·.1) ⊆ itf.outputs.map (·.name) := by
  have hapart := List.disjoint_of_nodup_append hdistinct
  constructor
  · intro h
    have houtputs : wiring.outputs.map (·.1) ⊆ itf.outputs.map (·.name) := by
      intro formal hformal
      obtain ⟨entry, hentry, rfl⟩ := List.mem_map.mp hformal
      exact List.mem_map.mpr (h.outputs entry hentry)
    refine ⟨?_, h.distinct.of_append_right, houtputs⟩
    refine (List.perm_ext_iff_of_nodup h.distinct.of_append_left hdistinct.of_append_left).mpr
      fun formal => ⟨fun hformal => ?_, fun hname => ?_⟩
    · obtain ⟨entry, hentry, rfl⟩ := List.mem_map.mp hformal
      exact List.mem_map.mpr (h.inputs entry hentry)
    · obtain ⟨p, hp, rfl⟩ := List.mem_map.mp hname
      rcases List.mem_append.mp (h.complete p hp) with hin | hout
      · exact hin
      · exact absurd (houtputs hout) (hapart hname)
  · rintro ⟨hperm, hnodup, houtputs⟩
    refine ⟨fun entry hentry => ?_, fun entry hentry => ?_, ?_, fun p hp => ?_⟩
    · exact List.mem_map.mp (hperm.mem_iff.mp (List.mem_map_of_mem hentry))
    · exact List.mem_map.mp (houtputs (List.mem_map_of_mem hentry))
    · refine List.nodup_append'.mpr ⟨hperm.nodup_iff.mpr hdistinct.of_append_left, hnodup, ?_⟩
      exact fun formal hin hout => hapart (hperm.mem_iff.mp hin) (houtputs hout)
    · exact List.mem_append_left _ (hperm.mem_iff.mpr (List.mem_map_of_mem hp))

theorem Matches.used (h : wiring.Matches itf) : wiring.Used itf where
  found p hp := by
    have hnamed := ((matches_iff hdistinct).mp h).1.mem_iff.mpr (List.mem_map_of_mem hp)
    obtain ⟨⟨formal, source⟩, hentry, hname⟩ := List.mem_map.mp hnamed
    obtain rfl : formal = p.name := hname
    exact ⟨source, h.lookup_inputs.mpr hentry⟩
  inputs _ hi :=
    existsUnique_takes hdistinct.of_append_left h.distinct.of_append_left h.inputs hi
  outputs _ hi :=
    existsUnique_takes hdistinct.of_append_right h.distinct.of_append_right h.outputs hi

end Distinct

end Wiring

/-! ## Instantiation -/

namespace Operator

open Retime.Action

variable {wiring : Wiring} {itf : Interface}

/-- Where all inputs are found, none of them is met as open. -/
theorem faults_connectInputs
    (hfound : ∀ p ∈ itf.inputs, ∃ source, wiring.inputs.lookup p.name = some source) (cycle : Nat) :
    (forEach (connectInput itf wiring cycle) itf.inputs).Faults (¬ ·.LeavesOpen) := by
  refine faults_forEach fun p hp => ?_
  obtain ⟨source, hsource⟩ := hfound p hp
  unfold connectInput
  rw [hsource]
  cases source with
  | constant text => exact faults_pure _
  | signal name =>
      apply faults_bind ((faults_find name).mono fun _ => Fault.OfReading.not_leavesOpen)
      intro s
      apply faults_ite (faults_stop nofun)
      apply faults_bind ((faults_read name cycle).mono fun _ => Fault.OfReading.not_leavesOpen)
      exact fun _ => faults_pure _

/-! ## The ports of an operator -/

variable {op : Operator}

/-- The ports have the names of signals of two roles. -/
theorem Refers.distinct (h : op.Refers) (hitf : op.interface? = some itf) : itf.Distinct := by
  obtain ⟨schedule, -, rfl⟩ := Option.map_eq_some_iff.mp hitf
  have hlawful := h.sound.flow.lawful
  have hport : ∀ delay id, (op.port? id delay).map (·.name) =
      (op.flow.netlist.signal? id).map (·.name) := fun delay id => by
    rw [port?, Option.map_map]
    rfl
  have hinputs : (op.inputs.toList.filterMap (op.port? · 0)).map (·.name) =
      (op.flow.netlist.signals.toList.filter (·.role = .input)).map (·.name) := by
    rw [← hlawful.names_withRole, ← h.ports.inputs, List.map_filterMap]
    simp only [hport]
  have houtputs : (((op.outputs.toList.zip schedule.outputDelays).filterMap
        fun entry => op.port? entry.1.signal entry.2).map (·.name)).Sublist
      ((op.flow.netlist.signals.toList.filter (·.role = .output)).map (·.name)) := by
    have hshown : ((op.outputs.toList.zip schedule.outputDelays).map Prod.fst).Sublist
        op.outputs.toList := by
      rw [List.zip_eq_zip_take_min, List.map_fst_zip (by simp)]
      exact List.take_sublist ..
    rw [← hlawful.names_withRole, ← h.ports.outputs, List.map_filterMap, List.filterMap_map]
    simp only [hport]
    have hnames := hshown.filterMap fun out => (op.flow.netlist.signal? out.signal).map (·.name)
    rwa [List.filterMap_map] at hnames
  have hnames := (op.flow.netlist.perm_roles.map (·.name)).nodup_iff.mpr hlawful.nodup_names
  rw [List.map_append, List.map_append, ← List.append_assoc] at hnames
  rw [Interface.Distinct, hinputs]
  exact hnames.of_append_left.sublist ((List.Sublist.refl _).append houtputs)

end Operator

namespace Library

open Retime.Operator

/-- Whatever was done to a library, as long as the operators that were committed were made by
calls, the ports of an interface have distinct names, and a wiring is accepted if and only if it
connects the inputs in some order and distinct outputs. Then each entry is found for one port, and
no state of the copying operator makes the inputs stop at an open one. -/
theorem wirings_checked_exactly (settings : Settings) (device : Device) (acts : List Act)
    (hacts : ∀ op, .commit op ∈ acts → op.Scripted) :
    let lib := ({ settings, device } : Library).after acts
    ∀ sub itf, lib.interface sub = .ok itf → itf.Distinct ∧ ∀ wiring : Wiring,
      (wiring.check itf = .ok () ↔ (wiring.inputs.map (·.1)).Perm (itf.inputs.map (·.name)) ∧
        (wiring.outputs.map (·.1)).Nodup ∧
        wiring.outputs.map (·.1) ⊆ itf.outputs.map (·.name)) ∧
      (wiring.check itf = .ok () → wiring.Used itf ∧ ∀ op cycle operator formal,
        (Action.forEach (connectInput itf wiring cycle) itf.inputs op).result ≠
          .error (.unboundPort operator formal)) := by
  intro lib sub itf hitf
  obtain ⟨committed, hcommitted, hshown⟩ := interface_eq_ok.mp hitf
  have hdistinct := (scripted_of_operator? hacts hcommitted).refers.distinct hshown
  refine ⟨hdistinct, fun wiring => ⟨?_, fun hcheck => ?_⟩⟩
  · rw [Wiring.check_eq_ok]
    exact Wiring.matches_iff hdistinct
  · have hused := (Wiring.check_eq_ok.mp hcheck).used hdistinct
    refine ⟨hused, fun op cycle operator formal hfails => ?_⟩
    exact (faults_connectInputs hused.found cycle op).of_error hfails ⟨operator, formal, rfl⟩

/-- The splitter is committed. -/
def splitterActs : List Act :=
  [.create "splitter", .commit splitter]

theorem interface_of_splitterActs (settings : Settings) (device : Device) : ∃ sequential,
    (({ settings, device } : Library).after splitterActs).interface 0 =
      .ok (splitterInterface sequential) := by
  obtain ⟨sequential, hitf⟩ := interface?_splitter
  have hfinished : splitter.isFinished = true := by
    obtain ⟨schedule, hschedule, -⟩ := Option.map_eq_some_iff.mp hitf
    rw [isFinished, hschedule]
    rfl
  obtain ⟨hhandle, hname⟩ : splitter.handle = 0 ∧ splitter.name = "splitter" :=
    identity_after (blank 0 "splitter" 4 true) _
  refine ⟨sequential, interface_eq_ok.mpr ⟨splitter, ?_, hitf⟩⟩
  simp [splitterActs, after, act, create, commit, hfinished, hhandle, hname, operator?]

/-- The outputs of the splitter can be connected in any order, and its input once. -/
theorem wirings_of_splitter :
    let lib := ({ settings := {}, device := .ofSettings {} } : Library).after splitterActs
    (∀ op, .commit op ∈ splitterActs → op.Scripted) ∧ ∃ itf, lib.interface 0 = .ok itf ∧
      (Wiring.mk [("X", .signal "a")] [("Q", "q"), ("P", "p")]).Used itf ∧
      (Wiring.mk [("X", .signal "a"), ("X", .signal "b")] []).check itf ≠ .ok () := by
  intro lib
  have hacts : ∀ op, .commit op ∈ splitterActs → op.Scripted := by
    intro op hop
    obtain rfl : op = splitter := by simpa [splitterActs] using hop
    exact ⟨0, "splitter", 4, true, _, rfl⟩
  obtain ⟨sequential, hitf⟩ := interface_of_splitterActs {} (.ofSettings {})
  obtain ⟨-, hwirings⟩ := wirings_checked_exactly {} (.ofSettings {}) splitterActs hacts 0 _ hitf
  refine ⟨hacts, _, hitf, ((hwirings _).2 ((hwirings _).1.mpr ?_)).1, fun hcheck => ?_⟩
  · simp [splitterInterface]
  · have hperm := ((hwirings _).1.mp hcheck).1.length_eq
    simp [splitterInterface] at hperm

end Library

end Retime

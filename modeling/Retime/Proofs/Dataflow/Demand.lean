import Mathlib
import Retime.Proofs.Dataflow.Evolution
import Retime.Proofs.Dataflow.Registers

/-! # Demand

If no request fails, a line is exactly as long as the demand for its root requires. Two
evolutions in which the same cycles are asked of a signal, in any order and any number
of times, agree on the names of its stages and on the answers, and they end with the
same number of registers if this is so for all signals.
-/

namespace Retime.Dataflow

variable {d d' : Dataflow} {qs qs' : List Request} {root root' : Signal}

/-! ## Lengths -/

theorem Served.root_eq (h : Served qs d) (hroot : d.netlist.signal? root.id = some root)
    {q : Request} (hq : q ∈ qs) (hid : q.root.id = root.id) : q.root = root := by
  have hin := h.root q hq
  rw [hid, hroot] at hin
  exact (Option.some.inj hin).symm

theorem Served.gap_le (h : Served qs d) {q : Request} (hq : q ∈ qs) :
    q.gap ≤ (d.stages q.root.id).size := by
  obtain ⟨id, -, hcarries⟩ := h.answered q hq
  exact hcarries.le_size

/-! ## Names -/

theorem Sound.name_stage (h : d.Sound) (hroot : d.netlist.signal? root.id = some root) {k : Nat}
    {id : SignalId} (hk : (d.stages root.id)[k]? = some id) :
    d.netlist.name id = stageName (d.stem root) (k + 1) := by
  obtain ⟨root', hroot', -, -, hs⟩ := h.stage hk
  obtain rfl : root = root' := Option.some.inj (hroot.symm.trans hroot')
  simp [Netlist.name, hs, stageOf]

/-- The names of the stages behind a signal. -/
theorem Sound.map_name_stages (h : d.Sound) (hroot : d.netlist.signal? root.id = some root) :
    (d.stages root.id).toList.map d.netlist.name =
      (List.range (d.stages root.id).size).map fun k => stageName (d.stem root) (k + 1) := by
  apply List.ext_getElem (by simp)
  intro k hk _
  have hbound : k < (d.stages root.id).size := by simpa using hk
  simpa using h.name_stage hroot (Array.getElem?_eq_getElem hbound)

/-- The name of what carries the value of `root` in a cycle. -/
theorem Carries.name_eq {cycle : Nat} {id : SignalId} (hcarries : d.Carries root cycle id)
    (h : d.Sound) (hroot : d.netlist.signal? root.id = some root) :
    d.netlist.name id =
      if cycle = root.cycle then root.name else stageName (d.stem root) (cycle - root.cycle) := by
  rcases hcarries with ⟨hcycle, rfl⟩ | ⟨k, rfl, hk⟩
  · rw [if_pos hcycle]
    simp [Netlist.name, hroot]
  · rw [if_neg (by omega), h.name_stage hroot hk, Nat.add_sub_cancel_left]

/-! ## Equal demand -/

/-- `root` and `root'` are the same to a reader, and the same cycles are asked of them. -/
structure SameDemand (qs : List Request) (d : Dataflow) (root : Signal) (qs' : List Request)
    (d' : Dataflow) (root' : Signal) : Prop where
  mem : d.netlist.signal? root.id = some root
  mem' : d'.netlist.signal? root'.id = some root'
  name_eq : root.name = root'.name
  cycle_eq : root.cycle = root'.cycle
  stem_eq : d.stem root = d'.stem root'
  asked : ∀ cycle, (∃ q ∈ qs, q.root.id = root.id ∧ q.cycle = cycle) ↔
    ∃ q ∈ qs', q.root.id = root'.id ∧ q.cycle = cycle

theorem SameDemand.symm (h : SameDemand qs d root qs' d' root') :
    SameDemand qs' d' root' qs d root where
  mem := h.mem'
  mem' := h.mem
  name_eq := h.name_eq.symm
  cycle_eq := h.cycle_eq.symm
  stem_eq := h.stem_eq.symm
  asked cycle := (h.asked cycle).symm

theorem SameDemand.size_le (h : SameDemand qs d root qs' d' root') (hserved : Served qs d)
    (hserved' : Served qs' d') : (d.stages root.id).size ≤ (d'.stages root'.id).size := by
  rcases hserved.short root.id with hempty | ⟨q, hq, hid, hsize⟩
  · rw [hempty]
    exact Nat.zero_le _
  · obtain ⟨q', hq', hid', hcycle⟩ := (h.asked q.cycle).mp ⟨q, hq, hid, rfl⟩
    have hle := hserved'.gap_le hq'
    have hgap : q.gap = q'.gap := by
      unfold Request.gap
      rw [hserved.root_eq h.mem hq hid, hserved'.root_eq h.mem' hq' hid', hcycle, h.cycle_eq]
    rw [hsize, hgap, ← hid']
    exact hle

theorem SameDemand.size_eq (h : SameDemand qs d root qs' d' root') (hserved : Served qs d)
    (hserved' : Served qs' d') : (d.stages root.id).size = (d'.stages root'.id).size :=
  Nat.le_antisymm (h.size_le hserved hserved') (h.symm.size_le hserved' hserved)

theorem SameDemand.stages_eq (h : SameDemand qs d root qs' d' root') (hd : d.Sound)
    (hd' : d'.Sound) (hserved : Served qs d) (hserved' : Served qs' d') :
    (d.stages root.id).toList.map d.netlist.name =
      (d'.stages root'.id).toList.map d'.netlist.name := by
  rw [hd.map_name_stages h.mem, hd'.map_name_stages h.mem', h.size_eq hserved hserved', h.stem_eq]

/-- Requests of equal demand for the same cycle are answered with the same name. -/
theorem SameDemand.answer_eq (h : SameDemand qs d root qs' d' root') (hd : d.Sound)
    (hd' : d'.Sound) (hserved : Served qs d) (hserved' : Served qs' d') {q q' : Request}
    (hq : q ∈ qs) (hq' : q' ∈ qs') (hid : q.root.id = root.id) (hid' : q'.root.id = root'.id)
    (hcycle : q.cycle = q'.cycle) : ∃ id id', q.outcome.result = .ok id ∧
      q'.outcome.result = .ok id' ∧ d.netlist.name id = d'.netlist.name id' := by
  obtain ⟨id, hanswer, hcarries⟩ := hserved.answered q hq
  obtain ⟨id', hanswer', hcarries'⟩ := hserved'.answered q' hq'
  rw [hserved.root_eq h.mem hq hid] at hcarries
  rw [hserved'.root_eq h.mem' hq' hid'] at hcarries'
  refine ⟨id, id', hanswer, hanswer', ?_⟩
  rw [hcarries.name_eq hd h.mem, hcarries'.name_eq hd' h.mem', hcycle, h.cycle_eq, h.name_eq,
    h.stem_eq]

/-! ## The number of registers -/

/-- The signals that are no stages. -/
def roots (d : Dataflow) : List Signal :=
  d.netlist.signals.toList.filter fun s => ! s.isStage

theorem Sound.mem_roots (h : d.Sound) :
    root ∈ d.roots ↔ d.netlist.signal? root.id = some root ∧ root.isStage = false := by
  rw [roots, List.mem_filter, h.lawful.mem_signals, Bool.not_eq_true']

/-- Every signal that is no stage has a counterpart with the same demand. -/
def Covers (qs : List Request) (d : Dataflow) (qs' : List Request) (d' : Dataflow) : Prop :=
  ∀ root ∈ d.roots, ∃ root' ∈ d'.roots, SameDemand qs d root qs' d' root'

theorem sum_filter {α : Type} (p : α → Bool) (f : α → Nat) {l : List α}
    (hzero : ∀ a ∈ l, p a = false → f a = 0) : ((l.filter p).map f).sum = (l.map f).sum := by
  induction l with
  | nil => rfl
  | cons a l ih =>
      have hrest := ih fun a' ha' => hzero a' (List.mem_cons_of_mem a ha')
      cases hp : p a with
      | true => simp [hp, hrest]
      | false => simp [hp, hrest, hzero a List.mem_cons_self hp]

theorem Sound.registerCount_eq_roots (h : d.Sound) :
    d.registerCount = (d.roots.map fun root => (d.stages root.id).size).sum := by
  rw [h.registerCount_eq, roots]
  refine (sum_filter _ _ fun s hs hstage => ?_).symm
  rw [h.stages_of_isStage (h.lawful.mem_signals.mp hs) (by simpa using hstage)]
  rfl

/-- The number of stages behind the signal of a name. -/
def lengthOf (d : Dataflow) (name : String) : Nat :=
  match d.netlist.find name with
  | .ok s => (d.stages s.id).size
  | .error _ => 0

theorem Sound.lengthOf_name (h : d.Sound) (hroot : d.netlist.signal? root.id = some root) :
    d.lengthOf root.name = (d.stages root.id).size := by
  rw [lengthOf, h.lawful.find_ok.mpr ⟨hroot, rfl⟩]

theorem Sound.registerCount_eq_names (h : d.Sound) :
    d.registerCount = ((d.roots.map (·.name)).map d.lengthOf).sum := by
  rw [h.registerCount_eq_roots, List.map_map]
  refine congrArg List.sum (List.map_congr_left fun root hroot => ?_)
  exact (h.lengthOf_name (h.mem_roots.mp hroot).1).symm

theorem Sound.nodup_names (h : d.Sound) : (d.roots.map (·.name)).Nodup := by
  refine List.Nodup.map_on ?_ (h.lawful.nodup_signals.filter _)
  intro root hroot root' hroot' hname
  exact h.lawful.eq_of_name (h.mem_roots.mp hroot).1 (h.mem_roots.mp hroot').1 hname

theorem Covers.mem_names (h : Covers qs d qs' d') {name : String}
    (hname : name ∈ d.roots.map (·.name)) : name ∈ d'.roots.map (·.name) := by
  obtain ⟨root, hroot, rfl⟩ := List.mem_map.mp hname
  obtain ⟨root', hroot', hsame⟩ := h root hroot
  exact List.mem_map.mpr ⟨root', hroot', hsame.name_eq.symm⟩

theorem registerCount_eq_of_covers (hd : d.Sound) (hd' : d'.Sound) (hserved : Served qs d)
    (hserved' : Served qs' d') (h : Covers qs d qs' d') (h' : Covers qs' d' qs d) :
    d.registerCount = d'.registerCount := by
  have hperm : (d.roots.map (·.name)).Perm (d'.roots.map (·.name)) :=
    (List.perm_ext_iff_of_nodup hd.nodup_names hd'.nodup_names).mpr fun _ =>
      ⟨h.mem_names, h'.mem_names⟩
  have hlength : ∀ name ∈ d.roots.map (·.name), d.lengthOf name = d'.lengthOf name := by
    intro name hname
    obtain ⟨root, hroot, rfl⟩ := List.mem_map.mp hname
    obtain ⟨root', -, hsame⟩ := h root hroot
    rw [hd.lengthOf_name hsame.mem, hsame.size_eq hserved hserved', hsame.name_eq,
      hd'.lengthOf_name hsame.mem']
  rw [hd.registerCount_eq_names, hd'.registerCount_eq_names, List.map_congr_left hlength]
  exact (hperm.map _).sum_eq

end Retime.Dataflow

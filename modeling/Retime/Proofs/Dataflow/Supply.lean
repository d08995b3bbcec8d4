import Retime.Proofs.Dataflow.Exact

/-! # Values for one cycle

Several requests for the same cycle share what they append. Together they add the stages that
were missing behind the roots that were asked for, each of them once, and nothing else.
-/

namespace Retime.Dataflow

open Retime.Action

/-- A stage behind one of the roots that is missing on the way to `cycle`. -/
inductive Missing (d : Dataflow) (roots : List Signal) (cycle : Nat) : Declaration → Prop where
  | intro {root : Signal} (mem : root ∈ roots) (depth : Nat)
      (beyond : (d.stages root.id).size < depth) (within : root.cycle + depth ≤ cycle) :
      Missing d roots cycle (stageOf root (d.stem root) depth)

/-- In `d'` all roots have their stages up to `cycle`, and `new` lists what is new. -/
structure Supplies (d d' : Dataflow) (cycle : Nat) (roots new : List Signal) : Prop where
  signals : d'.netlist.signals.toList = d.netlist.signals.toList ++ new
  mem_new : ∀ decl, decl ∈ new.map (·.toDeclaration) ↔ d.Missing roots cycle decl
  root_mem : ∀ root ∈ roots, d.netlist.signal? root.id = some root
  size_eq : ∀ root ∈ roots,
    (d'.stages root.id).size = max (d.stages root.id).size (cycle - root.cycle)
  stem_eq : ∀ r, (d'.line r).stem = (d.line r).stem
  others : ∀ r, r ∉ roots.map (·.id) → d'.line r = d.line r

variable {d d' d'' : Dataflow} {cycle count : Nat} {roots new : List Signal} {root : Signal}

theorem supplies_nil (d : Dataflow) (cycle : Nat) : d.Supplies d cycle [] [] where
  signals := by simp
  mem_new decl := by
    refine ⟨fun hmem => absurd hmem List.not_mem_nil, ?_⟩
    rintro ⟨hroot⟩
    cases hroot
  root_mem _ hroot := by cases hroot
  size_eq _ hroot := by cases hroot
  stem_eq _ := rfl
  others _ _ := rfl

/-- The next stages, by their depths. -/
theorem mem_nextStages {decl : Declaration} :
    decl ∈ (d.nextStages root count).map (·.toDeclaration) ↔
      ∃ depth, (d.stages root.id).size < depth ∧ depth ≤ (d.stages root.id).size + count ∧
        decl = stageOf root (d.stem root) depth := by
  simp only [nextStages, List.map_map, List.mem_map, List.mem_range, Function.comp]
  constructor
  · rintro ⟨k, hk, rfl⟩
    exact ⟨_, by omega, by omega, rfl⟩
  · rintro ⟨depth, hlow, hhigh, rfl⟩
    refine ⟨depth - (d.stages root.id).size - 1, by omega, ?_⟩
    congr 1
    omega

/-- What is there of a line after the requests so far. -/
theorem Supplies.size_of (h : d.Supplies d' cycle roots new)
    (hroot : d.netlist.signal? root.id = some root) :
    (d'.stages root.id).size = (d.stages root.id).size ∧ root ∉ roots ∨
      (d'.stages root.id).size = max (d.stages root.id).size (cycle - root.cycle) ∧
        root ∈ roots := by
  by_cases hmem : root ∈ roots
  · exact .inr ⟨h.size_eq root hmem, hmem⟩
  · refine .inl ⟨?_, hmem⟩
    rw [stages, h.others root.id]
    · rfl
    · intro hid
      obtain ⟨root', hroot', hsame⟩ := List.mem_map.mp hid
      have hold := h.root_mem root' hroot'
      rw [hsame, hroot] at hold
      exact hmem (Option.some.inj hold ▸ hroot')

theorem missing_append {more : List Signal} {decl : Declaration} :
    d.Missing (roots ++ more) cycle decl ↔
      d.Missing roots cycle decl ∨ d.Missing more cycle decl := by
  constructor
  · rintro ⟨hmem, depth, hlow, hhigh⟩
    rcases List.mem_append.mp hmem with hmem | hmem
    · exact .inl ⟨hmem, depth, hlow, hhigh⟩
    · exact .inr ⟨hmem, depth, hlow, hhigh⟩
  · rintro (⟨hmem, depth, hlow, hhigh⟩ | ⟨hmem, depth, hlow, hhigh⟩)
    · exact ⟨List.mem_append_left _ hmem, depth, hlow, hhigh⟩
    · exact ⟨List.mem_append_right _ hmem, depth, hlow, hhigh⟩

theorem missing_singleton {decl : Declaration} :
    d.Missing [root] cycle decl ↔ ∃ depth, (d.stages root.id).size < depth ∧
      root.cycle + depth ≤ cycle ∧ decl = stageOf root (d.stem root) depth := by
  constructor
  · rintro ⟨hmem, depth, hlow, hhigh⟩
    obtain rfl := List.mem_singleton.mp hmem
    exact ⟨depth, hlow, hhigh, rfl⟩
  · rintro ⟨depth, hlow, hhigh, rfl⟩
    exact ⟨List.mem_singleton_self root, depth, hlow, hhigh⟩

/-- A missing stage is missing behind one of the roots. -/
theorem Missing.exists_root {decl : Declaration} (h : d.Missing roots cycle decl) :
    ∃ root ∈ roots, d.Missing [root] cycle decl := by
  cases h with
  | intro mem depth beyond within =>
      exact ⟨_, mem, .intro (List.mem_singleton_self _) depth beyond within⟩

/-- One more request for the same cycle. -/
theorem Supplies.request (h : d.Supplies d' cycle roots new)
    (hroot : d.netlist.signal? root.id = some root) {s : Signal} {id : SignalId}
    (hle : root.cycle ≤ cycle) (hanswered : d'.Answered root s cycle id d'') :
    d.Supplies d'' cycle (roots ++ [root]) (new ++
      d'.nextStages root (cycle - root.cycle - (d'.stages root.id).size)) := by
  have hgrown := hanswered.grown
  have hstem : d'.stem root = d.stem root := stem_congr (h.stem_eq root.id)
  have hsize := hgrown.size_eq
  have hbefore := h.size_of hroot
  constructor
  · rw [hgrown.gains.signals, h.signals, List.append_assoc]
  · intro decl
    rw [List.map_append, List.mem_append, h.mem_new, missing_append, missing_singleton,
      mem_nextStages, hstem]
    constructor
    · rintro (hold | ⟨depth, hlow, hhigh, rfl⟩)
      · exact .inl hold
      · exact .inr ⟨depth, by omega, by omega, rfl⟩
    · rintro (hold | ⟨depth, hlow, hhigh, rfl⟩)
      · exact .inl hold
      · -- a stage is new now, unless its root was asked for before
        rcases hbefore with ⟨hsame, -⟩ | ⟨-, hmem⟩
        · exact .inr ⟨depth, by omega, by omega, rfl⟩
        · exact .inl ⟨hmem, depth, hlow, hhigh⟩
  · intro root' hroot'
    rcases List.mem_append.mp hroot' with hold | hnew
    · exact h.root_mem root' hold
    · obtain rfl := List.mem_singleton.mp hnew
      exact hroot
  · intro root' hroot'
    by_cases hid : root'.id = root.id
    · have hold : d.netlist.signal? root'.id = some root' := by
        rcases List.mem_append.mp hroot' with hold | hnew
        · exact h.root_mem root' hold
        · obtain rfl := List.mem_singleton.mp hnew
          exact hroot
      rw [hid, hroot] at hold
      obtain rfl := Option.some.inj hold
      omega
    · have hmem : root' ∈ roots := by
        rcases List.mem_append.mp hroot' with hold | hnew
        · exact hold
        · exact absurd (congrArg (·.id) (List.mem_singleton.mp hnew)) hid
      rw [← h.size_eq root' hmem, stages, stages, hgrown.others _ hid]
  · intro r
    by_cases hr : r = root.id
    · rw [hr, hgrown.stem_eq, h.stem_eq]
    · rw [hgrown.others r hr, h.stem_eq]
  · intro r hr
    rw [List.map_append, List.mem_append, not_or] at hr
    rw [hgrown.others r (by simpa using hr.2), h.others r hr.1]

end Retime.Dataflow

import Retime.Proofs.Library.Batch

/-! # What stays in a library

Whatever is done to a library, its index, its slots and the operators in them agree, and
what is committed stays with all that is seen of it. Generation leaves the slots there were
alone. In a workshop a finished operator can always be committed, and every instance shows
its operator as it is.
-/

namespace Retime.Library

variable {lib lib' : Library} {h : Handle} {op : Operator}

/-- What is committed in `lib` is committed in `lib'`, with the same interface and file. -/
structure Retains (lib lib' : Library) : Prop where
  operator : ∀ {h op}, lib.operator? h = some op → lib'.operator? h = some op
  interface : ∀ {h op}, lib.operator? h = some op →
    ∃ itf, lib.interface h = .ok itf ∧ lib'.interface h = .ok itf
  files : ∃ files files', lib.batch = .ok files ∧ lib'.batch = .ok files' ∧ files ⊆ files'

/-- A committed operator shows an interface. -/
theorem Lawful.interface (hlib : lib.Lawful) (hop : lib.operator? h = some op) :
    ∃ itf, lib.interface h = .ok itf := by
  obtain ⟨hfinished, -⟩ := hlib.operator?_spec hop
  obtain ⟨schedule, hschedule⟩ := Option.isSome_iff_exists.mp hfinished
  have hitf : ∃ itf, op.interface? = some itf := by simp [Operator.interface?, hschedule]
  obtain ⟨itf, hitf⟩ := hitf
  exact ⟨itf, interface_eq_ok.mpr ⟨op, hop, hitf⟩⟩

theorem Persists.retains (hpersists : lib.Persists lib') (hlib : lib.Lawful)
    (hlib' : lib'.Lawful) : lib.Retains lib' where
  operator hop := hpersists.operator hop
  interface hop := by
    obtain ⟨itf, hitf⟩ := hlib.interface hop
    exact ⟨itf, hitf, hpersists.interface hitf⟩
  files := by
    obtain ⟨files, hbatch, hfiles⟩ := hlib.batch
    obtain ⟨files', hbatch', hfiles'⟩ := hlib'.batch
    refine ⟨files, files', hbatch, hbatch', fun file hfile => ?_⟩
    obtain ⟨op, hop, hof⟩ := exists_left_of_forall₂ hfiles hfile
    obtain ⟨h, hop⟩ := hlib.mem_emission.mp hop
    have hop' := hlib'.mem_emission.mpr ⟨h, hpersists.operator hop⟩
    obtain ⟨file', hfile', hof'⟩ := exists_right_of_forall₂ hfiles' hop'
    obtain rfl := Except.ok.inj (hof.symm.trans hof')
    exact hfile'

theorem generates_kind (hlib : lib.Lawful) (kind : Kind) :
    lib.Generates kind.name (generate kind lib) :=
  generates hlib kind.name (builds_run (kind.design lib.device))

theorem Lawful.lookup_of_awaits (hlib : lib.Lawful) (hawaits : lib.Awaits op) :
    lib.lookup op.name = some op.handle :=
  hlib.lookup_iff.mpr ⟨_, hawaits, rfl⟩

theorem commit_of_unfinished (hopen : op.isFinished = false) :
    lib.commit op = .error ⟨op.name, "commit()", .unfinishedSubOperator op.name⟩ := by
  simp [commit, hopen]

/-- Whatever is done to a library, with operators from anywhere, its names are distinct and
the index leads to them; what is committed is finished, knows its place, and stays; and
generation by any build keeps to its own slots. In a workshop the operators on the bench
have slots of their own, a commit fails for nothing but an operator that is not finished,
and instances show what is committed. -/
theorem slots_stay :
    (∀ (settings : Settings) (device : Device) (acts : List Act),
      let lib := ({ settings, device } : Library).after acts
      (lib.slots.toList.map (·.name)).Nodup ∧
      (∀ (name : String) (h : Handle), lib.lookup name = some h ↔
        ∃ slot, lib.slots[h]? = some slot ∧ slot.name = name) ∧
      (∀ (h : Handle) (slot : Slot) (op : Operator), lib.slots[h]? = some slot →
        slot.operator = some op → op.isFinished = true ∧ op.handle = h ∧ op.name = slot.name) ∧
      (∀ later : List Act, lib.Retains (lib.after later)) ∧
      (∀ (name : String) (describe : Action Failure Site Unit), Builds describe →
        lib.Generates name (obtain name describe lib)) ∧
      ∀ kind : Kind, lib.Generates kind.name (generate kind lib)) ∧
    ∀ (settings : Settings) (device : Device) (steps : List Workshop.Step),
      let w := (Workshop.empty settings device).after steps
      (w.bench.map (·.handle)).Nodup ∧
      (∀ op ∈ w.bench, w.library.lookup op.name = some op.handle ∧
        w.library.operator? op.handle = none ∧
        (op.isFinished = true → ∃ lib', w.library.commit op = .ok (op.handle, lib')) ∧
        (op.isFinished = false → w.library.commit op =
          .error ⟨op.name, "commit()", .unfinishedSubOperator op.name⟩)) ∧
      ∀ op, w.Holds op → ∀ inst ∈ op.instances,
        w.library.interface inst.sub = .ok inst.interface := by
  refine ⟨fun settings device acts => ?_, fun settings device steps => ?_⟩
  · obtain ⟨hlib, -⟩ := (lawful_empty settings device).after acts
    refine ⟨hlib.nodup_names, fun _ _ => hlib.lookup_iff, fun _ _ _ => hlib.committed,
      fun later => ?_, fun name describe hdescribe => generates hlib name hdescribe,
      generates_kind hlib⟩
    obtain ⟨hlib', hpersists⟩ := hlib.after later
    exact hpersists.retains hlib hlib'
  · have hw := Workshop.sound_after_empty settings device steps
    refine ⟨hw.handles, fun op hop => ?_, fun op hop inst hinst => ?_⟩
    · have hawaits := hw.awaits op hop
      exact ⟨hw.library.toLawful.lookup_of_awaits hawaits, operator?_of_awaits hawaits,
        commit_of_awaits hawaits, commit_of_unfinished⟩
    · obtain ⟨place, hlinked⟩ := (hw.linked_of_holds hop).of_mem hinst
      exact hlinked.interface

end Retime.Library

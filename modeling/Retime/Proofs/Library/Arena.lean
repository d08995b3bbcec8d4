import Mathlib.Data.List.Nodup
import Retime.Proofs.Operator.Script

/-! # The slots of a library

In a lawful library the index leads from each name to the one slot of that name, and what
is committed is a finished operator that knows its own place. Slots are never taken back
and never filled twice.
-/

namespace Retime.Library

structure Lawful (lib : Library) : Prop where
  lookup_iff : ∀ {name : String} {h : Handle},
    lib.lookup name = some h ↔ ∃ slot, lib.slots[h]? = some slot ∧ slot.name = name
  committed : ∀ {h : Handle} {slot op}, lib.slots[h]? = some slot → slot.operator = some op →
    op.isFinished = true ∧ op.handle = h ∧ op.name = slot.name

/-- Every slot of `lib` is in the same place in `lib'`, as it was. -/
def Extends (lib lib' : Library) : Prop :=
  ∀ (h : Handle) (slot : Slot), lib.slots[h]? = some slot → lib'.slots[h]? = some slot

/-- Every name of `lib` is in the same place in `lib'`, and so is every committed operator. -/
structure Persists (lib lib' : Library) : Prop where
  name : ∀ {h : Handle} {slot}, lib.slots[h]? = some slot →
    ∃ slot', lib'.slots[h]? = some slot' ∧ slot'.name = slot.name
  operator : ∀ {h op}, lib.operator? h = some op → lib'.operator? h = some op

/-- The slot of an operator that can be committed as soon as it is finished. -/
def Awaits (lib : Library) (op : Operator) : Prop :=
  lib.slots[op.handle]? = some { name := op.name }

/-- What a successful reservation does. -/
structure Reserves (lib : Library) (name : String) (op : Operator) (lib' : Library) : Prop where
  free : lib.lookup name = none
  operator : op = .blank lib.slots.size name lib.device.period lib.device.pipelined
  slots : lib'.slots = lib.slots.push { name }
  index : lib'.index = lib.index.insert name lib.slots.size
  device : lib'.device = lib.device

/-- What a successful commit does. -/
structure Commits (lib : Library) (op : Operator) (h : Handle) (lib' : Library) : Prop where
  finished : op.isFinished = true
  handle : h = op.handle
  awaits : lib.Awaits op
  slots : lib'.slots = lib.slots.setIfInBounds op.handle { name := op.name, operator := some op }
  index : lib'.index = lib.index
  device : lib'.device = lib.device

variable {lib lib' lib'' : Library} {name : String} {op : Operator} {h : Handle}

/-! ## Reading a library -/

theorem operator?_eq_some :
    lib.operator? h = some op ↔ ∃ slot, lib.slots[h]? = some slot ∧ slot.operator = some op :=
  Option.bind_eq_some_iff

theorem find?_eq_some :
    lib.find? name = some (h, op) ↔ lib.lookup name = some h ∧ lib.operator? h = some op := by
  simp [find?, Option.bind_eq_some_iff]

theorem find?_eq_none :
    lib.find? name = none ↔ ∀ h, lib.lookup name = some h → lib.operator? h = none := by
  simp only [Option.eq_none_iff_forall_not_mem, Option.mem_def, Prod.forall, find?_eq_some, not_and]
  exact ⟨fun hnone h hlookup op => hnone h op hlookup, fun hnone h op hlookup => hnone h hlookup op⟩

/-- An interface is that of a committed operator. -/
theorem interface_eq_ok {itf : Interface} :
    lib.interface h = .ok itf ↔ ∃ op, lib.operator? h = some op ∧ op.interface? = some itf := by
  unfold interface operator?
  cases hslot : lib.slots[h]? with
  | none => simp
  | some slot =>
      dsimp only [Option.bind_some]
      rw [← Option.bind_eq_some_iff]
      cases slot.operator.bind (·.interface?) <;> simp

theorem lt_size_of_operator? (hop : lib.operator? h = some op) : h < lib.slots.size := by
  obtain ⟨slot, hslot, -⟩ := operator?_eq_some.mp hop
  exact (Array.getElem?_eq_some_iff.mp hslot).1

/-! ## Lawful libraries -/

section Lawful

variable (hlib : lib.Lawful)
include hlib

theorem Lawful.operator?_spec (hop : lib.operator? h = some op) :
    op.isFinished = true ∧ op.handle = h ∧ lib.lookup op.name = some h := by
  obtain ⟨slot, hslot, hcommitted⟩ := operator?_eq_some.mp hop
  obtain ⟨hfinished, hhandle, hname⟩ := hlib.committed hslot hcommitted
  exact ⟨hfinished, hhandle, hlib.lookup_iff.mpr ⟨slot, hslot, hname.symm⟩⟩

/-- No two slots have one name. -/
theorem Lawful.eq_of_name {h' : Handle} {slot slot' : Slot} (hslot : lib.slots[h]? = some slot)
    (hslot' : lib.slots[h']? = some slot') (hname : slot.name = slot'.name) : h = h' := by
  have hlookup := hlib.lookup_iff.mpr ⟨slot, hslot, hname⟩
  rw [hlib.lookup_iff.mpr ⟨slot', hslot', rfl⟩] at hlookup
  exact (Option.some.inj hlookup).symm

theorem Lawful.nodup_names : (lib.slots.toList.map (·.name)).Nodup := by
  rw [List.Nodup, List.pairwise_iff_getElem]
  intro i j hi hj hij hname
  rw [List.getElem_map, List.getElem_map] at hname
  rw [List.length_map] at hi hj
  have hplace := hlib.eq_of_name (Array.getElem?_eq_getElem hi) (Array.getElem?_eq_getElem hj)
    (by simpa using hname)
  exact Nat.ne_of_lt hij hplace

/-- A committed operator is found by its name. -/
theorem Lawful.find?_of_operator? (hop : lib.operator? h = some op) :
    lib.find? op.name = some (h, op) :=
  find?_eq_some.mpr ⟨(hlib.operator?_spec hop).2.2, hop⟩

end Lawful

/-! ## Extensions -/

theorem Extends.refl (lib : Library) : lib.Extends lib :=
  fun _ _ hslot => hslot

theorem Extends.trans (hext : lib.Extends lib') (hext' : lib'.Extends lib'') :
    lib.Extends lib'' :=
  fun h slot hslot => hext' h slot (hext h slot hslot)

theorem Persists.refl (lib : Library) : lib.Persists lib where
  name hslot := ⟨_, hslot, rfl⟩
  operator hop := hop

theorem Persists.trans (hpersists : lib.Persists lib') (hpersists' : lib'.Persists lib'') :
    lib.Persists lib'' where
  name hslot := by
    obtain ⟨slot', hslot', hname⟩ := hpersists.name hslot
    obtain ⟨slot'', hslot'', hname'⟩ := hpersists'.name hslot'
    exact ⟨slot'', hslot'', hname'.trans hname⟩
  operator hop := hpersists'.operator (hpersists.operator hop)

theorem Extends.persists (hext : lib.Extends lib') : lib.Persists lib' where
  name hslot := ⟨_, hext _ _ hslot, rfl⟩
  operator hop := by
    obtain ⟨slot, hslot, hcommitted⟩ := operator?_eq_some.mp hop
    exact operator?_eq_some.mpr ⟨slot, hext _ _ hslot, hcommitted⟩

theorem Persists.interface {itf : Interface} (hpersists : lib.Persists lib')
    (hitf : lib.interface h = .ok itf) : lib'.interface h = .ok itf := by
  obtain ⟨op, hop, hitf⟩ := interface_eq_ok.mp hitf
  exact interface_eq_ok.mpr ⟨op, hpersists.operator hop, hitf⟩

theorem Extends.awaits (hext : lib.Extends lib') (hop : lib.Awaits op) : lib'.Awaits op :=
  hext _ _ hop

/-! ## Reservations -/

theorem reserves_of_create (hcreate : lib.create name = .ok (op, lib')) :
    lib.Reserves name op lib' := by
  unfold create at hcreate
  split at hcreate
  · cases hcreate
  next hfree =>
    cases hcreate
    exact ⟨by simpa [lookup] using hfree, rfl, rfl, rfl, rfl⟩

section Reserves

variable (hres : lib.Reserves name op lib')
include hres

theorem Reserves.extends : lib.Extends lib' := by
  intro h slot hslot
  rw [hres.slots, Array.getElem?_push, if_neg]
  · exact hslot
  · exact Nat.ne_of_lt (Array.getElem?_eq_some_iff.mp hslot).1

theorem Reserves.awaits : lib'.Awaits op := by
  rw [hres.operator, Awaits, hres.slots]
  exact Array.getElem?_push_size

theorem Reserves.operator? (h : Handle) : lib'.operator? h = lib.operator? h := by
  unfold Library.operator?
  rw [hres.slots, Array.getElem?_push]
  split
  next hlast =>
    subst hlast
    simp
  · rfl

theorem Reserves.lawful (hlib : lib.Lawful) : lib'.Lawful where
  lookup_iff {name' h} := by
    have hlookup : lib'.lookup name' =
        if name = name' then some lib.slots.size else lib.lookup name' := by
      unfold lookup
      rw [hres.index, Std.HashMap.getElem?_insert]
      simp
    rw [hlookup, hres.slots]
    constructor
    · intro hfound
      split at hfound
      next hname =>
        obtain rfl := Option.some.inj hfound
        exact ⟨_, Array.getElem?_push_size, hname⟩
      · obtain ⟨slot, hslot, hname⟩ := hlib.lookup_iff.mp hfound
        refine ⟨slot, ?_, hname⟩
        rw [← hres.slots]
        exact hres.extends h slot hslot
    · rintro ⟨slot, hslot, rfl⟩
      rw [Array.getElem?_push] at hslot
      split at hslot
      next hlast =>
        cases hslot
        rw [if_pos rfl, hlast]
      · -- an earlier slot of this name would have been found
        have hfound := hlib.lookup_iff.mpr ⟨slot, hslot, rfl⟩
        rw [if_neg, hfound]
        rintro rfl
        rw [hres.free] at hfound
        cases hfound
  committed {h slot op'} hslot hcommitted := by
    rw [hres.slots, Array.getElem?_push] at hslot
    split at hslot
    · cases hslot
      cases hcommitted
    · exact hlib.committed hslot hcommitted

end Reserves

/-! ## Commits -/

theorem commits_of_commit (hcommit : lib.commit op = .ok (h, lib')) :
    lib.Commits op h lib' := by
  unfold commit at hcommit
  dsimp only at hcommit
  split at hcommit
  · cases hcommit
  next hfinished =>
    split at hcommit
    · cases hcommit
    next slot hslot =>
      split at hcommit
      next hopen =>
        cases hcommit
        obtain ⟨hnone, hname⟩ := hopen
        obtain ⟨slotName, slotOperator⟩ := slot
        obtain rfl : slotOperator = none := by simpa using hnone
        obtain rfl : slotName = op.name := hname
        exact ⟨not_not.mp hfinished, rfl, hslot, rfl, rfl, rfl⟩
      · cases hcommit

/-- Nothing else is asked of an operator whose slot awaits it than to be finished. -/
theorem commit_of_awaits (hawaits : lib.Awaits op) (hfinished : op.isFinished = true) :
    ∃ lib', lib.commit op = .ok (op.handle, lib') := by
  unfold commit
  unfold Awaits at hawaits
  simp [hfinished, hawaits]

theorem operator?_of_awaits (hawaits : lib.Awaits op) : lib.operator? op.handle = none := by
  unfold operator?
  rw [hawaits]
  rfl

section Commits

variable (hcom : lib.Commits op h lib')
include hcom

theorem Commits.getElem? (h' : Handle) : lib'.slots[h']? =
    if op.handle = h' then some { name := op.name, operator := some op } else lib.slots[h']? := by
  have hlt := (Array.getElem?_eq_some_iff.mp hcom.awaits).1
  rw [hcom.slots, Array.getElem?_setIfInBounds]
  split <;> simp_all

theorem Commits.operator? (h' : Handle) :
    lib'.operator? h' = if op.handle = h' then some op else lib.operator? h' := by
  unfold Library.operator?
  rw [hcom.getElem?]
  split <;> rfl

theorem Commits.persists : lib.Persists lib' where
  name {h' slot} hslot := by
    rw [hcom.getElem?]
    split
    next hplace =>
      subst hplace
      rw [hcom.awaits] at hslot
      cases hslot
      exact ⟨_, rfl, rfl⟩
    · exact ⟨slot, hslot, rfl⟩
  operator {h' op'} hop := by
    rw [hcom.operator?, if_neg]
    · exact hop
    · rintro rfl
      rw [operator?_of_awaits hcom.awaits] at hop
      cases hop

theorem Commits.lawful (hlib : lib.Lawful) : lib'.Lawful where
  lookup_iff {name h'} := by
    have hlookup : lib'.lookup name = lib.lookup name := congrArg (·[name]?) hcom.index
    rw [hlookup, hlib.lookup_iff, hcom.getElem?]
    split
    next hplace =>
      subst hplace
      rw [hcom.awaits]
      simp
    · rfl
  committed {h' slot op'} hslot hcommitted := by
    rw [hcom.getElem?] at hslot
    split at hslot
    next hplace =>
      cases hslot
      cases hcommitted
      exact ⟨hcom.finished, hplace, rfl⟩
    · exact hlib.committed hslot hcommitted

/-- The slots of other operators await them still. -/
theorem Commits.awaits_of_ne {op' : Operator} (hne : op'.handle ≠ op.handle)
    (hawaits : lib.Awaits op') : lib'.Awaits op' := by
  rw [Awaits, hcom.getElem?, if_neg hne.symm]
  exact hawaits

end Commits

/-- A library without slots is lawful. -/
theorem lawful_empty (settings : Settings) (device : Device) :
    ({ settings, device } : Library).Lawful where
  lookup_iff := by simp [lookup]
  committed hslot := by simp at hslot

end Retime.Library

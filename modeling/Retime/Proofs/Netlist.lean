import Mathlib.Data.List.Nodup
import Retime.Netlist

/-! # Lawful netlists

In a lawful netlist every signal knows its own position and the index leads from each
name to the one signal of that name. Declarations keep this, since a name that is
taken is never given again.
-/

namespace Retime.Netlist

structure Lawful (n : Netlist) : Prop where
  id_eq : ∀ {id s}, n.signal? id = some s → s.id = id
  index_iff : ∀ {name : String} {id : SignalId},
    n.index[name]? = some id ↔ ∃ s, n.signal? id = some s ∧ s.name = name

/-- Every signal of `n` is in the same place in `n'`. -/
def Extends (n n' : Netlist) : Prop :=
  ∀ id s, n.signal? id = some s → n'.signal? id = some s

variable {n n' n'' : Netlist}

theorem Extends.refl (n : Netlist) : n.Extends n :=
  fun _ _ h => h

theorem Extends.trans (h : n.Extends n') (h' : n'.Extends n'') : n.Extends n'' :=
  fun id s hs => h' id s (h id s hs)

theorem lt_size_of_signal? {id : SignalId} {s : Signal} (h : n.signal? id = some s) :
    id < n.size :=
  (Array.getElem?_eq_some_iff.mp h).1

theorem Extends.size_le (h : n.Extends n') : n.size ≤ n'.size := by
  apply Nat.le_of_not_lt
  intro hlt
  have hs : n.signal? n'.size = some n.signals[n'.size] := Array.getElem?_eq_getElem hlt
  exact Nat.lt_irrefl _ (lt_size_of_signal? (h _ _ hs))

theorem signal?_eq_none {id : SignalId} (h : n.size ≤ id) : n.signal? id = none :=
  Array.getElem?_eq_none h

theorem name_of_signal {id : SignalId} {s : Signal} (hs : n.signal? id = some s) :
    n.name id = s.name := by
  simp [name, hs]

/-! ## Lookup -/

section Lookup

variable (h : n.Lawful)
include h

/-- Names are unique. -/
theorem Lawful.eq_of_name {s s' : Signal} (hs : n.signal? s.id = some s)
    (hs' : n.signal? s'.id = some s') (hname : s.name = s'.name) : s = s' := by
  have hid : s.id = s'.id := by
    have hindex := h.index_iff.mpr ⟨s, hs, rfl⟩
    rw [h.index_iff.mpr ⟨s', hs', hname.symm⟩] at hindex
    exact (Option.some.inj hindex).symm
  rw [hid, hs'] at hs
  exact (Option.some.inj hs).symm

theorem Lawful.find_ok {name : String} {s : Signal} :
    n.find name = .ok s ↔ n.signal? s.id = some s ∧ s.name = name := by
  unfold find
  constructor
  · intro hfind
    cases hindex : n.index[name]? with
    | none => simp [hindex] at hfind
    | some id =>
        obtain ⟨s', hs', hname⟩ := h.index_iff.mp hindex
        simp only [hindex, Option.bind_some, hs', Except.ok.injEq] at hfind
        subst hfind
        exact ⟨(h.id_eq hs').symm ▸ hs', hname⟩
  · rintro ⟨hs, hname⟩
    simp [h.index_iff.mpr ⟨s, hs, hname⟩, hs]

theorem Lawful.contains_iff {name : String} :
    n.contains name = true ↔ ∃ s, n.signal? s.id = some s ∧ s.name = name := by
  unfold contains
  rw [Std.HashMap.contains_eq_isSome_getElem?, Option.isSome_iff_exists]
  constructor
  · rintro ⟨id, hid⟩
    obtain ⟨s, hs, hname⟩ := h.index_iff.mp hid
    exact ⟨s, (h.id_eq hs).symm ▸ hs, hname⟩
  · rintro ⟨s, hs, hname⟩
    exact ⟨s.id, h.index_iff.mpr ⟨s, hs, hname⟩⟩

/-- The ids are the positions. -/
theorem Lawful.map_id : n.signals.toList.map (·.id) = List.range n.size := by
  apply List.ext_getElem?
  intro i
  rw [List.getElem?_map, Array.getElem?_toList]
  cases hs : n.signals[i]? with
  | none =>
      rw [List.getElem?_eq_none (by simpa [size] using Array.getElem?_eq_none_iff.mp hs)]
      rfl
  | some s =>
      have hlt := lt_size_of_signal? hs
      rw [List.getElem?_range hlt, Option.map_some, h.id_eq hs]

theorem Lawful.mem_signals {s : Signal} :
    s ∈ n.signals.toList ↔ n.signal? s.id = some s := by
  rw [Array.mem_toList_iff, Array.mem_iff_getElem?]
  constructor
  · rintro ⟨id, hs⟩
    exact (h.id_eq hs).symm ▸ hs
  · exact fun hs => ⟨s.id, hs⟩

theorem Lawful.nodup_signals : n.signals.toList.Nodup :=
  List.Nodup.of_map _ (h.map_id ▸ List.nodup_range)

theorem Lawful.filter_name {s : Signal} (hs : n.signal? s.id = some s) :
    n.signals.toList.filter (·.name = s.name) = [s] := by
  rw [← List.perm_singleton,
    List.perm_ext_iff_of_nodup (h.nodup_signals.filter _) (List.nodup_singleton s)]
  intro s'
  simp only [List.mem_filter, decide_eq_true_eq, List.mem_singleton]
  constructor
  · rintro ⟨hs', hname⟩
    exact h.eq_of_name (h.mem_signals.mp hs') hs hname
  · rintro rfl
    exact ⟨h.mem_signals.mpr hs, rfl⟩

/-- Of what is made of all signals, only that of `s` has to do with the name of `s`. -/
theorem Lawful.filter_filterMap {α : Type} {s : Signal} (hs : n.signal? s.id = some s)
    {f : Signal → Option α} {p : α → Bool}
    (hp : ∀ s' a, n.signal? s'.id = some s' → f s' = some a → p a = decide (s'.name = s.name)) :
    (n.signals.toList.filterMap f).filter p = (f s).toList := by
  calc
    (n.signals.toList.filterMap f).filter p =
        (n.signals.toList.filter (·.name = s.name)).filterMap f := by
      rw [List.filter_filterMap, List.filterMap_filter]
      apply List.filterMap_congr
      intro s' hs'
      cases hf : f s' with
      | none => simp
      | some a => simp [Option.filter, hp s' a (h.mem_signals.mp hs') hf]
    _ = (f s).toList := by
      rw [h.filter_name hs]
      cases hf : f s <;> simp [hf]

/-- Of what is made of all signals and is for the signal it is made of, only that of `s` is
for `s`. -/
theorem Lawful.filter_target {α : Type} {s : Signal} (hs : n.signal? s.id = some s)
    {f : Signal → Option α} (target : α → SignalId) (hf : ∀ s a, f s = some a → target a = s.id)
    {l : List α} (hl : l.Perm (n.signals.toList.filterMap f)) :
    l.filter (fun a => target a = s.id) = (f s).toList := by
  have htable : (n.signals.toList.filterMap f).filter (fun a => target a = s.id) =
      (f s).toList := by
    refine h.filter_filterMap hs fun s' a hs' ha => ?_
    rw [decide_eq_decide, hf s' a ha]
    constructor
    · intro hid
      rw [hid, hs] at hs'
      rw [Option.some.inj hs']
    · exact fun hname => congrArg Signal.id (h.eq_of_name hs' hs hname)
  have hperm := hl.filter fun a => target a = s.id
  rw [htable] at hperm
  cases ha : f s with
  | none =>
      rw [ha] at hperm
      exact hperm.eq_nil
  | some a =>
      rw [ha] at hperm
      exact List.perm_singleton.mp hperm

end Lookup

/-! ## Declarations -/

theorem signal?_add (decl : Declaration) (id : SignalId) :
    (n.add decl).signal? id = if id = n.size then some { decl with id := n.size }
      else n.signal? id :=
  Array.getElem?_push

@[simp] theorem size_add (decl : Declaration) : (n.add decl).size = n.size + 1 := by
  simp [add, size]

@[simp] theorem signal?_add_size (decl : Declaration) :
    (n.add decl).signal? n.size = some { decl with id := n.size } := by
  rw [signal?_add, if_pos rfl]

/-- Declaring a name takes it and no other one. -/
theorem contains_add (decl : Declaration) (name : String) :
    (n.add decl).contains name = (decl.name == name || n.contains name) :=
  Std.HashMap.contains_insert

theorem find_add_self (decl : Declaration) :
    (n.add decl).find decl.name = .ok { decl with id := n.size } := by
  have hindex : (n.add decl).index[decl.name]? = some n.size := by simp [add]
  rw [find, hindex, Option.bind_some, signal?_add_size]

theorem extends_add (decl : Declaration) : n.Extends (n.add decl) := by
  intro id s hs
  have hlt := lt_size_of_signal? hs
  rw [signal?_add, if_neg (Nat.ne_of_lt hlt)]
  exact hs

/-- A signal after a declaration is the new one or an old one. -/
theorem signal?_add_cases {decl : Declaration} {id : SignalId} {s : Signal}
    (hs : (n.add decl).signal? id = some s) :
    (id = n.size ∧ s = { decl with id := n.size }) ∨ n.signal? id = some s := by
  rw [signal?_add] at hs
  split at hs
  next hid => exact .inl ⟨hid, (Option.some.inj hs).symm⟩
  · exact .inr hs

/-- A name keeps its meaning when another one is declared. -/
theorem find_add_of_ne {decl : Declaration} {name : String} {s : Signal} (h : n.find name = .ok s)
    (hne : decl.name ≠ name) : (n.add decl).find name = .ok s := by
  have hindex : (n.add decl).index[name]? = n.index[name]? := by
    simp [add, Std.HashMap.getElem?_insert, hne]
  unfold find at h ⊢
  rw [hindex]
  cases hid : n.index[name]? with
  | none => simp [hid] at h
  | some id =>
      cases hs : n.signal? id with
      | none => simp [hid, hs] at h
      | some s' =>
          rw [hid, Option.bind_some, hs] at h
          rw [Option.bind_some, extends_add decl id s' hs, ← h]

theorem lawful_empty : ({} : Netlist).Lawful where
  id_eq hs := by simp [signal?] at hs
  index_iff := by simp [signal?]

theorem Lawful.add (h : n.Lawful) {decl : Declaration} (hfree : n.contains decl.name = false) :
    (n.add decl).Lawful := by
  have hfresh : ∀ id s, n.signal? id = some s → s.name ≠ decl.name := by
    intro id s hs hname
    have hcontains := h.contains_iff.mpr ⟨s, (h.id_eq hs).symm ▸ hs, hname⟩
    rw [hfree] at hcontains
    cases hcontains
  constructor
  · intro id s hs
    rcases signal?_add_cases hs with ⟨hid, rfl⟩ | hs
    · exact hid.symm
    · exact h.id_eq hs
  · intro name id
    show (n.index.insert decl.name n.size)[name]? = some id ↔ _
    rw [Std.HashMap.getElem?_insert]
    by_cases hname : decl.name = name
    · simp only [hname, beq_self_eq_true, if_true, Option.some.injEq]
      constructor
      · rintro rfl
        exact ⟨_, signal?_add_size decl, hname⟩
      · rintro ⟨s, hs, hsname⟩
        rcases signal?_add_cases hs with ⟨hid, -⟩ | hs
        · exact hid.symm
        · exact absurd (hsname.trans hname.symm) (hfresh id s hs)
    · rw [if_neg (by simpa using hname), h.index_iff]
      constructor
      · rintro ⟨s, hs, hsname⟩
        exact ⟨s, extends_add decl id s hs, hsname⟩
      · rintro ⟨s, hs, hsname⟩
        rcases signal?_add_cases hs with ⟨-, rfl⟩ | hs
        · exact absurd hsname hname
        · exact ⟨s, hs, hsname⟩

end Retime.Netlist

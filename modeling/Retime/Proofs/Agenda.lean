import Mathlib.Data.List.Nodup
import Retime.Agenda

/-! # Reading agendas

Read cycle by cycle, an agenda gives back all items that were put into it for these
cycles, each as often as it was put there.
-/

namespace Retime.Agenda

variable {α : Type}

/-- An item in front of those of one cycle stands among the items of all cycles once. -/
theorem flatMap_front {cycles : List Nat} (hnodup : cycles.Nodup) {place : Nat}
    (hplace : place ∈ cycles) (a : α) (items : Nat → List α) :
    (cycles.flatMap fun cycle => if place = cycle then a :: items cycle else items cycle).Perm
      (a :: cycles.flatMap items) := by
  obtain ⟨before, later, rfl⟩ := List.append_of_mem hplace
  have hother : ∀ l : List Nat, place ∉ l →
      (l.flatMap fun cycle => if place = cycle then a :: items cycle else items cycle) =
        l.flatMap items := by
    intro l hl
    refine List.flatMap_congr fun cycle hcycle => if_neg ?_
    rintro rfl
    exact hl hcycle
  rw [List.nodup_middle, List.nodup_cons, List.mem_append, not_or] at hnodup
  rw [List.flatMap_append, List.flatMap_cons, List.flatMap_append, List.flatMap_cons,
    hother before hnodup.1.1, hother later hnodup.1.2, if_pos rfl, List.cons_append]
  exact List.perm_middle

theorem flatMap_items {cycles : List Nat} (hnodup : cycles.Nodup) {l : List (Nat × α)}
    (hl : ∀ entry ∈ l, entry.1 ∈ cycles) :
    (cycles.flatMap (ofList l).items).Perm (l.map (·.2)) := by
  induction l with
  | nil =>
      have hnone : ∀ cycle, (ofList ([] : List (Nat × α))).items cycle = [] := fun cycle => by
        simp [items_ofList]
      simp [hnone]
  | cons entry l ih =>
      have hitems : (ofList (entry :: l)).items = fun cycle =>
          if entry.1 = cycle then entry.2 :: (ofList l).items cycle
          else (ofList l).items cycle := by
        funext cycle
        exact items_add (ofList l) entry.1 cycle entry.2
      rw [hitems, List.map_cons]
      apply (flatMap_front hnodup (hl entry List.mem_cons_self) _ _).trans
      exact (ih fun entry' hentry' => hl entry' (List.mem_cons_of_mem _ hentry')).cons _

/-- With the cycles in which they are found, the items are the entries that were put there. -/
theorem flatMap_dated_items {cycles : List Nat} (hnodup : cycles.Nodup) {l : List (Nat × α)}
    (hl : ∀ entry ∈ l, entry.1 ∈ cycles) :
    (cycles.flatMap fun cycle => ((ofList l).items cycle).map (cycle, ·)).Perm l := by
  -- the agenda of the entries themselves
  have hentries : ∀ cycle, ((ofList l).items cycle).map (cycle, ·) =
      (ofList (l.map fun entry => (entry.1, entry))).items cycle := by
    intro cycle
    rw [items_ofList, items_ofList, List.filter_map, List.map_map, List.map_map]
    apply List.map_congr_left
    intro entry hentry
    have hcycle : entry.1 = cycle := by simpa using (List.mem_filter.mp hentry).2
    exact hcycle ▸ rfl
  simp only [hentries]
  refine (flatMap_items hnodup fun entry hentry => ?_).trans (.of_eq ?_)
  · obtain ⟨entry, hentry', rfl⟩ := List.mem_map.mp hentry
    exact hl entry hentry'
  · rw [List.map_map]
    exact List.map_id l

end Retime.Agenda

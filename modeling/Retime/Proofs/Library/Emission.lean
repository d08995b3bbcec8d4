import Retime.Library.Emission
import Retime.Proofs.Library.Workshop

/-! # Walks through the instances

The recursion that puts operators in order needs no bound: a handle is entered once, and
only those of slots are entered at all. Everything that was met and is committed ends up in
the order. As long as no operator contains itself, no operator that is still open is met
again, so whatever an operator has instances of is in the order when the operator is added.
-/

namespace Retime.Library

/-- Visiting handles one after another leads from `v` to `v'`, however deep they nest. -/
inductive Walks (lib : Library) : Visits → List Handle → Visits → Prop where
  | done (v : Visits) : Walks lib v [] v
  | seen {v v' : Visits} {h : Handle} {hs : List Handle} (hseen : h ∈ v.visited)
      (rest : Walks lib v hs v') : Walks lib v (h :: hs) v'
  | reserved {v v' : Visits} {h : Handle} {hs : List Handle} (hnew : h ∉ v.visited)
      (hnone : lib.operator? h = none)
      (rest : Walks lib { v with visited := h :: v.visited } hs v') : Walks lib v (h :: hs) v'
  | enter {v w v' : Visits} {h : Handle} {hs : List Handle} (op : Operator)
      (hnew : h ∉ v.visited) (hop : lib.operator? h = some op)
      (inner : Walks lib { v with visited := h :: v.visited }
        (op.instances.toList.map (·.sub)) w)
      (rest : Walks lib { w with order := w.order ++ [h] } hs v') : Walks lib v (h :: hs) v'

/-- The operator was entered and is not in the order yet. -/
structure Open (lib : Library) (v : Visits) (h : Handle) : Prop where
  visited : h ∈ v.visited
  pending : h ∉ v.order
  committed : ∃ op, lib.operator? h = some op

/-- Only what was visited and is committed is in the order, and once. -/
structure Visits.Lists (v : Visits) (lib : Library) : Prop where
  nodup : v.order.Nodup
  visited : ∀ h ∈ v.order, h ∈ v.visited
  committed : ∀ h ∈ v.order, ∃ op, lib.operator? h = some op

/-- Whatever an operator in the order has instances of comes before it. -/
def LeavesFirst (lib : Library) (order : List Handle) : Prop :=
  ∀ before h after, order = before ++ h :: after → ∀ op, lib.operator? h = some op →
    ∀ inst ∈ op.instances, inst.sub ∈ before

variable {lib : Library} {v v' : Visits} {h : Handle} {hs : List Handle}

/-! ## Termination -/

/-- The number of slots that were not visited. -/
def unvisited (lib : Library) (v : Visits) : Nat :=
  ((List.range lib.slots.size).filter (· ∉ v.visited)).length

theorem unvisited_le (hsub : v.visited ⊆ v'.visited) : lib.unvisited v' ≤ lib.unvisited v := by
  refine (List.monotone_filter_right _ fun h hnew => ?_).length_le
  simp only [decide_eq_true_eq] at hnew ⊢
  exact fun hold => hnew (hsub hold)

theorem unvisited_lt (hlt : h < lib.slots.size) (hnew : h ∉ v.visited) :
    lib.unvisited { v with visited := h :: v.visited } < lib.unvisited v := by
  have hsplit : (List.range lib.slots.size).filter (· ∉ h :: v.visited) =
      ((List.range lib.slots.size).filter (· ∉ v.visited)).filter (· ≠ h) := by
    rw [List.filter_filter]
    refine List.filter_congr fun h' _ => ?_
    simp [List.mem_cons, not_or]
  unfold unvisited
  rw [hsplit, List.length_filter_lt_length_iff_exists]
  exact ⟨h, List.mem_filter.mpr ⟨List.mem_range.mpr hlt, by simpa using hnew⟩, by simp⟩

theorem Walks.visited_subset (hw : lib.Walks v hs v') : v.visited ⊆ v'.visited := by
  induction hw with
  | done => exact List.Subset.refl _
  | seen _ _ ih => exact ih
  | reserved _ _ _ ih => exact (List.cons_subset.mp ih).2
  | enter _ _ _ _ _ ihinner ihrest =>
      exact List.Subset.trans (List.cons_subset.mp ihinner).2 ihrest

/-- A bound above the number of slots that were not visited is never reached. -/
theorem walks_foldl_visit {nesting : Nat} (hbound : lib.unvisited v < nesting) (hs : List Handle) :
    lib.Walks v hs (hs.foldl (lib.visit nesting) v) := by
  induction nesting generalizing v hs with
  | zero => cases hbound
  | succ nesting ihnesting =>
      induction hs generalizing v with
      | nil => exact .done v
      | cons h hs ih =>
          rw [List.foldl_cons]
          by_cases hseen : h ∈ v.visited
          · have hvisit : lib.visit (nesting + 1) v h = v := by simp [visit, hseen]
            rw [hvisit]
            exact .seen hseen (ih hbound)
          · cases hop : lib.operator? h with
            | none =>
                have hvisit : lib.visit (nesting + 1) v h =
                    { v with visited := h :: v.visited } := by
                  simp [visit, hseen, hop]
                rw [hvisit]
                refine .reserved hseen hop (ih ?_)
                exact Nat.lt_of_le_of_lt (unvisited_le (List.subset_cons_self _ _)) hbound
            | some op =>
                have hfewer := unvisited_lt (lt_size_of_operator? hop) hseen
                have hinner := ihnesting (Nat.lt_of_lt_of_le hfewer (Nat.le_of_lt_succ hbound))
                  (op.instances.toList.map (·.sub))
                have hvisit : lib.visit (nesting + 1) v h =
                    let w := (op.instances.toList.map (·.sub)).foldl (lib.visit nesting)
                      { v with visited := h :: v.visited }
                    { w with order := w.order ++ [h] } := by
                  simp [visit, hseen, hop]
                rw [hvisit]
                refine .enter op hseen hop hinner (ih ?_)
                have hgrows := List.cons_subset.mp hinner.visited_subset
                exact Nat.lt_of_le_of_lt (unvisited_le hgrows.2) hbound

/-- A walk leads to one end. -/
theorem Walks.unique {w : Visits} (hw : lib.Walks v hs v') (hw' : lib.Walks v hs w) : v' = w := by
  induction hw generalizing w with
  | done => cases hw'; rfl
  | seen hseen _ ih =>
      cases hw' with
      | seen _ rest => exact ih rest
      | reserved hnew => exact absurd hseen hnew
      | enter _ hnew => exact absurd hseen hnew
  | reserved hnew hnone _ ih =>
      cases hw' with
      | seen hseen => exact absurd hseen hnew
      | reserved _ _ rest => exact ih rest
      | enter _ _ hop => cases hnone.symm.trans hop
  | enter op hnew hop _ _ ihinner ihrest =>
      cases hw' with
      | seen hseen => exact absurd hseen hnew
      | reserved _ hnone => cases hnone.symm.trans hop
      | enter op' _ hop' inner rest =>
          cases Option.some.inj (hop.symm.trans hop')
          cases ihinner inner
          exact ihrest rest

/-- The order of emission is that of a walk through the committed operators. -/
theorem walks_emissionOrder (lib : Library) :
    ∃ v, lib.Walks {} (lib.operators.map (·.handle)) v ∧ lib.emissionOrder = v.order := by
  have hbound : lib.unvisited {} < lib.slots.size + 1 := by
    refine Nat.lt_succ_of_le ((List.length_filter_le _ _).trans ?_)
    rw [List.length_range]
  exact ⟨_, walks_foldl_visit hbound _, rfl⟩

/-! ## What a walk lists -/

theorem Walks.mem_visited (hw : lib.Walks v hs v') : hs ⊆ v'.visited := by
  induction hw with
  | done => exact List.nil_subset _
  | seen hseen rest ih => exact List.cons_subset.mpr ⟨rest.visited_subset hseen, ih⟩
  | reserved _ _ rest ih =>
      exact List.cons_subset.mpr ⟨rest.visited_subset List.mem_cons_self, ih⟩
  | enter _ _ _ inner rest _ ihrest =>
      exact List.cons_subset.mpr
        ⟨rest.visited_subset (inner.visited_subset List.mem_cons_self), ihrest⟩

/-- What is added to the order was not visited before. -/
theorem Walks.order_cases (hw : lib.Walks v hs v') :
    ∀ h ∈ v'.order, h ∈ v.order ∨ h ∉ v.visited := by
  induction hw with
  | done => exact fun h hh => .inl hh
  | seen _ _ ih => exact ih
  | reserved _ _ _ ih =>
      exact fun h hh => (ih h hh).imp_right fun hnew hold => hnew (List.mem_cons_of_mem _ hold)
  | @enter v w v' g hs op hnew _ inner _ ihinner ihrest =>
      intro h hh
      rcases ihrest h hh with hold | hlater
      · rcases List.mem_append.mp hold with hin | hlast
        · exact (ihinner h hin).imp_right fun hnew hold => hnew (List.mem_cons_of_mem _ hold)
        · obtain rfl := List.mem_singleton.mp hlast
          exact .inr hnew
      · exact .inr fun hold => hlater (inner.visited_subset (List.mem_cons_of_mem _ hold))

/-- An operator that is open at the end was open at the start. -/
theorem Walks.open_of_open (hw : lib.Walks v hs v') : ∀ h, lib.Open v' h → lib.Open v h := by
  induction hw with
  | done => exact fun h hh => hh
  | seen _ _ ih => exact ih
  | reserved _ hnone _ ih =>
      intro h hh
      obtain ⟨hvisited, hpending, op, hop⟩ := ih h hh
      rcases List.mem_cons.mp hvisited with rfl | hvisited
      · cases hnone.symm.trans hop
      · exact ⟨hvisited, hpending, op, hop⟩
  | enter op hnew _ _ _ ihinner ihrest =>
      intro h hh
      obtain ⟨hvisited, hpending, hcommitted⟩ := ihrest h hh
      rw [List.mem_append, not_or, List.mem_singleton] at hpending
      obtain ⟨hvisited, hpending', -⟩ := ihinner h ⟨hvisited, hpending.1, hcommitted⟩
      exact ⟨(List.mem_cons.mp hvisited).resolve_left hpending.2, hpending', hcommitted⟩

theorem Walks.lists (hw : lib.Walks v hs v') (hv : v.Lists lib) : v'.Lists lib := by
  induction hw with
  | done => exact hv
  | seen _ _ ih => exact ih hv
  | reserved _ _ _ ih =>
      exact ih ⟨hv.nodup, fun h hh => List.mem_cons_of_mem _ (hv.visited h hh), hv.committed⟩
  | @enter v w v' g hs op hnew hop inner _ ihinner ihrest =>
      have hw := ihinner
        ⟨hv.nodup, fun h hh => List.mem_cons_of_mem _ (hv.visited h hh), hv.committed⟩
      have hpending : g ∉ w.order := by
        intro hin
        rcases inner.order_cases g hin with hold | hnew'
        · exact hnew (hv.visited g hold)
        · exact hnew' List.mem_cons_self
      apply ihrest
      constructor
      · exact hw.nodup.append (List.nodup_singleton g) (by simpa using hpending)
      · intro h hh
        rcases List.mem_append.mp hh with hin | hlast
        · exact hw.visited h hin
        · obtain rfl := List.mem_singleton.mp hlast
          exact inner.visited_subset List.mem_cons_self
      · intro h hh
        rcases List.mem_append.mp hh with hin | hlast
        · exact hw.committed h hin
        · obtain rfl := List.mem_singleton.mp hlast
          exact ⟨op, hop⟩

/-! ## Leaves first -/

theorem LeavesFirst.append {order : List Handle} (horder : lib.LeavesFirst order)
    (hsubs : ∀ op, lib.operator? h = some op → ∀ inst ∈ op.instances, inst.sub ∈ order) :
    lib.LeavesFirst (order ++ [h]) := by
  intro before g after hsplit op hop inst hinst
  rcases List.eq_nil_or_concat after with rfl | ⟨after, last, rfl⟩
  · obtain ⟨rfl, hlast⟩ := List.append_inj' hsplit rfl
    obtain rfl := List.singleton_inj.mp hlast
    exact hsubs op hop inst hinst
  · have hsplit' : order ++ [h] = (before ++ g :: after) ++ [last] := by simpa using hsplit
    obtain ⟨hfront, -⟩ := List.append_inj' hsplit' rfl
    exact horder before g after hfront op hop inst hinst

/-- As long as open operators are above all that is still to be visited, leaves come first. -/
theorem Walks.leavesFirst {rank : Handle → Nat}
    (hrank : ∀ h op, lib.operator? h = some op → ∀ inst ∈ op.instances, rank inst.sub < rank h)
    (hsubs : ∀ h op, lib.operator? h = some op → ∀ inst ∈ op.instances,
      ∃ sub, lib.operator? inst.sub = some sub)
    (hw : lib.Walks v hs v') (habove : ∀ g, lib.Open v g → ∀ h ∈ hs, rank h < rank g)
    (hv : lib.LeavesFirst v.order) : lib.LeavesFirst v'.order := by
  induction hw with
  | done => exact hv
  | seen _ _ ih => exact ih (fun g hg h hh => habove g hg h (List.mem_cons_of_mem _ hh)) hv
  | reserved _ hnone _ ih =>
      refine ih (fun g hg h hh => ?_) hv
      obtain ⟨hvisited, hpending, op, hop⟩ := hg
      rcases List.mem_cons.mp hvisited with rfl | hvisited
      · cases hnone.symm.trans hop
      · exact habove g ⟨hvisited, hpending, op, hop⟩ h (List.mem_cons_of_mem _ hh)
  | @enter v w v' h hs op hnew hop inner _ ihinner ihrest =>
      -- what is open inside is `h` or was open before, and so above the instances of `h`
      have hinside : ∀ g, lib.Open { v with visited := h :: v.visited } g →
          g = h ∨ lib.Open v g := by
        rintro g ⟨hvisited, hpending, hcommitted⟩
        exact (List.mem_cons.mp hvisited).imp_right fun hvisited =>
          ⟨hvisited, hpending, hcommitted⟩
      have habove' : ∀ g, lib.Open { v with visited := h :: v.visited } g →
          ∀ inst ∈ op.instances, rank inst.sub < rank g := by
        intro g hg inst hinst
        have hlow := hrank h op hop inst hinst
        rcases hinside g hg with rfl | hg
        · exact hlow
        · exact Nat.lt_trans hlow (habove g hg h List.mem_cons_self)
      refine ihrest (fun g hg g' hg' => ?_) (LeavesFirst.append (ihinner ?_ hv) ?_)
      · obtain ⟨hvisited, hpending, hcommitted⟩ := hg
        rw [List.mem_append, not_or, List.mem_singleton] at hpending
        have hopen := inner.open_of_open g ⟨hvisited, hpending.1, hcommitted⟩
        exact habove g ((hinside g hopen).resolve_left hpending.2) g' (List.mem_cons_of_mem _ hg')
      · intro g hg g' hg'
        obtain ⟨inst, hinst, rfl⟩ := List.mem_map.mp hg'
        exact habove' g hg inst (Array.mem_toList_iff.mp hinst)
      · intro op' hop' inst hinst
        cases Option.some.inj (hop.symm.trans hop')
        have hmet := inner.mem_visited (List.mem_map_of_mem (Array.mem_toList_iff.mpr hinst))
        by_contra hpending
        -- an open operator would be above itself
        have hopen := inner.open_of_open inst.sub ⟨hmet, hpending, hsubs h op hop inst hinst⟩
        exact Nat.lt_irrefl _ (habove' inst.sub hopen inst hinst)

/-! ## The order of emission -/

theorem Lawful.mem_handles (hlib : lib.Lawful) :
    h ∈ lib.operators.map (·.handle) ↔ ∃ op, lib.operator? h = some op := by
  simp only [operators, List.mem_map, List.mem_filterMap, Array.mem_toList_iff,
    Array.mem_iff_getElem?]
  constructor
  · rintro ⟨op, ⟨slot, ⟨h', hslot⟩, hop⟩, rfl⟩
    obtain ⟨-, rfl, -⟩ := hlib.committed hslot hop
    exact ⟨op, operator?_eq_some.mpr ⟨slot, hslot, hop⟩⟩
  · rintro ⟨op, hop⟩
    obtain ⟨slot, hslot, hcommitted⟩ := operator?_eq_some.mp hop
    exact ⟨op, ⟨slot, ⟨h, hslot⟩, hcommitted⟩, (hlib.committed hslot hcommitted).2.1⟩

theorem nodup_emissionOrder (lib : Library) : lib.emissionOrder.Nodup := by
  obtain ⟨v, hw, horder⟩ := lib.walks_emissionOrder
  rw [horder]
  exact (hw.lists ⟨.nil, nofun, nofun⟩).nodup

theorem Lawful.mem_emissionOrder (hlib : lib.Lawful) :
    h ∈ lib.emissionOrder ↔ ∃ op, lib.operator? h = some op := by
  obtain ⟨v, hw, horder⟩ := lib.walks_emissionOrder
  rw [horder]
  refine ⟨(hw.lists ⟨.nil, nofun, nofun⟩).committed h, fun hcommitted => ?_⟩
  by_contra hpending
  -- nothing was open before the walk
  have hopen := hw.open_of_open h ⟨hw.mem_visited (hlib.mem_handles.mpr hcommitted), hpending,
    hcommitted⟩
  cases hopen.visited

theorem Founded.leavesFirst (hlib : lib.Founded) : lib.LeavesFirst lib.emissionOrder := by
  obtain ⟨v, hw, horder⟩ := lib.walks_emissionOrder
  obtain ⟨rank, hrank⟩ := hlib.ranked
  rw [horder]
  refine hw.leavesFirst hrank (fun h op hop inst hinst => ?_) (fun g hg => nomatch hg.visited) ?_
  · obtain ⟨sub, hsub, -⟩ := (hlib.linked hop).committed hinst
    exact ⟨sub, hsub⟩
  · intro before h after hnil
    simp at hnil

/-- Whatever a library holds, the recursion behind the order of emission ends, and in one
way. Whatever was done to the library, it lists the committed operators, each once. And if
all of them were made in one workshop, it lists every operator after those that it has
instances of. -/
theorem emissionOrder_leaves_first :
    (∀ lib : Library, ∃ v, (∀ v', lib.Walks {} (lib.operators.map (·.handle)) v' ↔ v' = v) ∧
      lib.emissionOrder = v.order) ∧
    (∀ (settings : Settings) (device : Device) (acts : List Act),
      let lib := ({ settings, device } : Library).after acts
      lib.emissionOrder.Nodup ∧
        ∀ h, h ∈ lib.emissionOrder ↔ ∃ op, lib.operator? h = some op) ∧
    ∀ (settings : Settings) (device : Device) (steps : List Workshop.Step),
      let lib := ((Workshop.empty settings device).after steps).library
      lib.emissionOrder.Nodup ∧
        (∀ h, h ∈ lib.emissionOrder ↔ ∃ op, lib.operator? h = some op) ∧
        ∀ before h after, lib.emissionOrder = before ++ h :: after →
          ∀ op, lib.operator? h = some op → ∀ inst ∈ op.instances, inst.sub ∈ before := by
  refine ⟨fun lib => ?_, fun settings device acts => ?_, fun settings device steps => ?_⟩
  · obtain ⟨v, hw, horder⟩ := lib.walks_emissionOrder
    refine ⟨v, fun v' => ⟨fun hw' => hw'.unique hw, ?_⟩, horder⟩
    rintro rfl
    exact hw
  · have hlib := ((lawful_empty settings device).after acts).1
    exact ⟨nodup_emissionOrder _, fun h => hlib.mem_emissionOrder⟩
  · have hlib := (Workshop.sound_after_empty settings device steps).library
    exact ⟨nodup_emissionOrder _, fun h => hlib.toLawful.mem_emissionOrder, hlib.leavesFirst⟩

end Retime.Library

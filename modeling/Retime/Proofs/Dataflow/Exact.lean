import Retime.Proofs.Dataflow.Plain

/-! # Exact requests

What a request does is determined by the names that are free: the stages that are missing on
the way are appended as long as their names are not taken, and nothing else is added. A request
in two steps adds what a request in one step adds.
-/

namespace Retime.Dataflow

open Retime.Action

/-- The dataflow with `count` more stages behind `root`. -/
def growBy (d : Dataflow) (root : Signal) : Nat → Dataflow
  | 0 => d
  | count + 1 => (d.growBy root count).grow root

/-- The next `count` stages behind `root`. -/
def nextStages (d : Dataflow) (root : Signal) (count : Nat) : List Signal :=
  (List.range count).map fun k =>
    ⟨stageOf root (d.stem root) ((d.stages root.id).size + k + 1), d.netlist.size + k⟩

/-- The names of all missing stages up to `depth` are free. -/
def Unhindered (d : Dataflow) (root : Signal) (depth : Nat) : Prop :=
  ∀ k, (d.stages root.id).size < k → k ≤ depth →
    d.netlist.contains (stageName (d.stem root) k) = false

/-- After `count` further stages behind `root` the name of the next one is taken. -/
structure Hindered (d : Dataflow) (root : Signal) (count : Nat) (e : Fault) : Prop where
  free : d.Unhindered root ((d.stages root.id).size + count)
  taken : d.netlist.contains
    (stageName (d.stem root) ((d.stages root.id).size + count + 1)) = true
  fault_eq : e = .duplicateSignal
    (stageName (d.stem root) ((d.stages root.id).size + count + 1))

/-- `d'` has `count` more stages behind `root` than `d`, and nothing else that is new. -/
structure Gains (d : Dataflow) (root : Signal) (count : Nat) (d' : Dataflow) : Prop where
  signals : d'.netlist.signals.toList = d.netlist.signals.toList ++ d.nextStages root count
  stages : (d'.stages root.id).toList =
    (d.stages root.id).toList ++ (d.nextStages root count).map (·.id)
  others : ∀ r, r ≠ root.id → d'.line r = d.line r

/-- A signal with a line behind it, in which every stage is in its place. -/
structure Rooted (d : Dataflow) (root : Signal) : Prop where
  id_eq : ∀ {id : SignalId} {s : Signal}, d.netlist.signal? id = some s → s.id = id
  mem : d.netlist.signal? root.id = some root
  nonstage : root.isStage = false
  stage : ∀ {k : Nat} {id : SignalId}, (d.stages root.id)[k]? = some id →
    d.netlist.signal? id = some ⟨stageOf root (d.stem root) (k + 1), id⟩
  place : ∀ {s : Signal} {depth : Nat}, d.netlist.signal? s.id = some s →
    s.driver = .stage root.id depth → ∃ k, depth = k + 1 ∧ (d.stages root.id)[k]? = some s.id
  answer : ∀ {cycle : Nat} {id : SignalId}, (d.line root.id).answers[cycle]? = some id →
    ∃ k, cycle = root.cycle + (k + 1) ∧ (d.stages root.id)[k]? = some id

variable {d d' d'' : Dataflow} {root s : Signal} {count : Nat}

/-! ## Several stages -/

theorem growBy_succ' (d : Dataflow) (root : Signal) (count : Nat) :
    d.growBy root (count + 1) = (d.grow root).growBy root count := by
  induction count with
  | zero => rfl
  | succ count ih => exact congrArg (·.grow root) ih

theorem growBy_add (d : Dataflow) (root : Signal) (count more : Nat) :
    (d.growBy root count).growBy root more = d.growBy root (count + more) := by
  induction more with
  | zero => rfl
  | succ more ih => exact congrArg (·.grow root) ih

@[simp] theorem stem_line_growBy (count : Nat) (r : SignalId) :
    ((d.growBy root count).line r).stem = (d.line r).stem := by
  induction count with
  | zero => rfl
  | succ count ih => exact (stem_line_grow root r).trans ih

@[simp] theorem stem_growBy (count : Nat) : (d.growBy root count).stem root = d.stem root :=
  stem_congr (stem_line_growBy count root.id)

@[simp] theorem answers_growBy (count : Nat) (r : SignalId) :
    ((d.growBy root count).line r).answers = (d.line r).answers := by
  induction count with
  | zero => rfl
  | succ count ih => exact (answers_grow root r).trans ih

theorem line_growBy_of_ne (count : Nat) {r : SignalId} (h : r ≠ root.id) :
    (d.growBy root count).line r = d.line r := by
  induction count with
  | zero => rfl
  | succ count ih => exact (line_grow_of_ne h).trans ih

@[simp] theorem size_netlist_growBy (count : Nat) :
    (d.growBy root count).netlist.size = d.netlist.size + count := by
  induction count with
  | zero => rfl
  | succ count ih => exact (Netlist.size_add _).trans (congrArg (· + 1) ih)

@[simp] theorem size_stages_growBy (count : Nat) :
    ((d.growBy root count).stages root.id).size = (d.stages root.id).size + count := by
  induction count with
  | zero => rfl
  | succ count ih =>
      show (((d.growBy root count).grow root).stages root.id).size = _
      rw [stages_grow_self, Array.size_push, ih]
      rfl

theorem gains_growBy (d : Dataflow) (root : Signal) (count : Nat) :
    d.Gains root count (d.growBy root count) := by
  refine ⟨?_, ?_, fun r hr => line_growBy_of_ne count hr⟩
  · induction count with
    | zero => simp [growBy, nextStages]
    | succ count ih =>
        have hgrow : (d.growBy root (count + 1)).netlist = (d.growBy root count).netlist.add
            (stageOf root (d.stem root) ((d.stages root.id).size + count + 1)) := by
          show (d.growBy root count).netlist.add _ = _
          rw [stem_growBy, size_stages_growBy]
        rw [hgrow, Netlist.add, Array.toList_push, ih, nextStages, nextStages, List.range_succ,
          List.map_append, List.append_assoc, size_netlist_growBy]
        rfl
  · induction count with
    | zero => simp [growBy, nextStages]
    | succ count ih =>
        show (((d.growBy root count).grow root).stages root.id).toList = _
        rw [stages_grow_self, Array.toList_push, ih, nextStages, nextStages, List.range_succ,
          List.map_append, List.map_append, List.append_assoc, size_netlist_growBy]
        rfl

/-- The table of signals depends on the table before and on where the line ends, on no more. -/
theorem netlist_growBy_congr (hnetlist : d.netlist = d'.netlist) (hstem : d.stem root = d'.stem root)
    (hsize : (d.stages root.id).size = (d'.stages root.id).size) (count : Nat) :
    (d.growBy root count).netlist = (d'.growBy root count).netlist := by
  induction count with
  | zero => exact hnetlist
  | succ count ih =>
      show (d.growBy root count).netlist.add _ = (d'.growBy root count).netlist.add _
      rw [ih, stem_growBy, stem_growBy, size_stages_growBy, size_stages_growBy, hstem, hsize]

/-! ## Free names -/

/-- The name of a stage is no obstacle to deeper stages. -/
theorem contains_grow {k : Nat} (h : (d.stages root.id).size + 1 < k) :
    (d.grow root).netlist.contains (stageName (d.stem root) k) =
      d.netlist.contains (stageName (d.stem root) k) := by
  have hne : stageName (d.stem root) ((d.stages root.id).size + 1) ≠ stageName (d.stem root) k :=
    fun hname => Nat.ne_of_lt h (stageName_injective hname).2
  show (d.netlist.add _).contains _ = _
  rw [Netlist.contains_add]
  simp [stageOf, hne]

/-- The names that are taken after stages were appended. -/
theorem contains_growBy_iff {name : String} :
    (d.growBy root count).netlist.contains name = true ↔ d.netlist.contains name = true ∨
      ∃ k, (d.stages root.id).size < k ∧ k ≤ (d.stages root.id).size + count ∧
        name = stageName (d.stem root) k := by
  induction count with
  | zero =>
      refine ⟨.inl, ?_⟩
      rintro (hold | ⟨k, hlow, hhigh, -⟩)
      · exact hold
      · exact absurd hlow (Nat.not_lt_of_le hhigh)
  | succ count ih =>
      show ((d.growBy root count).netlist.add _).contains name = true ↔ _
      rw [Netlist.contains_add, stem_growBy, size_stages_growBy, Bool.or_eq_true, beq_iff_eq, ih]
      constructor
      · rintro (hnew | hold | ⟨k, hlow, hhigh, hname⟩)
        · exact .inr ⟨_, by omega, Nat.le_refl _, hnew.symm⟩
        · exact .inl hold
        · exact .inr ⟨k, hlow, by omega, hname⟩
      · rintro (hold | ⟨k, hlow, hhigh, hname⟩)
        · exact .inr (.inl hold)
        · rcases Nat.lt_or_eq_of_le hhigh with hlt | rfl
          · exact .inr (.inr ⟨k, hlow, by omega, hname⟩)
          · exact .inl hname.symm

/-- One stage after another is appended, up to a name that is taken. -/
theorem wp_addStages_exact (d : Dataflow) (root : Signal) (count : Nat) :
    (addStages root (d.stem root) count ((d.stages root.id).size + 1)).wp
      (fun _ d' => d.Unhindered root ((d.stages root.id).size + count) ∧ d' = d.growBy root count)
      (fun e d' => ∃ done < count, d.Hindered root done e ∧ d' = d.growBy root done) d := by
  induction count generalizing d with
  | zero => exact ⟨fun k hlow hhigh => absurd hlow (Nat.not_lt_of_le hhigh), rfl⟩
  | succ count ih =>
      unfold addStages
      rw [wp_bind, wp_addStage]
      refine ⟨fun htaken => ⟨0, Nat.zero_lt_succ count, ⟨?_, htaken, rfl⟩, rfl⟩, fun hfree => ?_⟩
      · exact fun k hlow hhigh => absurd hlow (Nat.not_lt_of_le hhigh)
      have hstem : (d.grow root).stem root = d.stem root :=
        stem_congr (stem_line_grow root root.id)
      have hsize : ((d.grow root).stages root.id).size = (d.stages root.id).size + 1 := by
        rw [stages_grow_self, Array.size_push]
      -- the deeper names are as free as they were
      have hunhindered : ∀ depth, (d.grow root).Unhindered root depth → d.Unhindered root depth := by
        intro depth h k hlow hhigh
        rcases Nat.lt_or_ge ((d.stages root.id).size + 1) k with hdeeper | hnext
        · have hk := h k (hsize ▸ hdeeper) hhigh
          rwa [hstem, contains_grow hdeeper] at hk
        · obtain rfl : k = (d.stages root.id).size + 1 := by omega
          exact hfree
      have hrest := ih (d.grow root)
      rw [hstem, hsize] at hrest
      refine hrest.mono ?_ ?_
      · rintro - d' ⟨hall, rfl⟩
        refine ⟨hunhindered _ ?_, (growBy_succ' d root count).symm⟩
        rwa [Nat.add_assoc, Nat.add_comm 1] at hall
      · rintro e d' ⟨done, hdone, ⟨hall, htaken, hfault⟩, rfl⟩
        have hplace : (d.stages root.id).size + 1 + done = (d.stages root.id).size + (done + 1) := by
          omega
        rw [hsize, hplace] at hall
        rw [hstem, hsize, hplace] at htaken hfault
        rw [contains_grow (by omega)] at htaken
        exact ⟨done + 1, Nat.succ_lt_succ hdone, ⟨hunhindered _ hall, htaken, hfault⟩,
          (growBy_succ' d root done).symm⟩

/-! ## Rooted lines -/

theorem Sound.rooted (h : d.Sound) (hs : d.netlist.signal? s.id = some s) :
    d.Rooted (d.netlist.root s) ∧ d.Carries (d.netlist.root s) s.cycle s.id := by
  obtain ⟨hroot, hnone, hcarries⟩ := h.root_spec hs
  refine ⟨⟨h.lawful.id_eq, hroot, hnone, fun hk => ?_, h.place, fun hanswer => ?_⟩, hcarries⟩
  · obtain ⟨root, hroot', -, -, hid⟩ := h.stage hk
    obtain rfl := Option.some.inj (hroot.symm.trans hroot')
    exact hid
  · obtain ⟨root, k, hroot', hcycle, hk⟩ := h.answer hanswer
    obtain rfl := Option.some.inj (hroot.symm.trans hroot')
    exact ⟨k, hcycle, hk⟩

section Rooted

variable (h : d.Rooted root)
include h

theorem Rooted.grow : (d.grow root).Rooted root := by
  have hlonger := lengthens_grow (d := d) root
  refine ⟨fun hs => ?_, hlonger.netlist _ _ h.mem, h.nonstage, fun hk => ?_,
    fun hs hdriver => ?_, fun hanswer => ?_⟩
  · rcases Netlist.signal?_add_cases hs with ⟨rfl, rfl⟩ | hs
    · rfl
    · exact h.id_eq hs
  · rw [stem_congr (stem_line_grow root root.id)]
    rcases stages_grow_cases hk with ⟨-, rfl, rfl⟩ | hold
    · exact Netlist.signal?_add_size _
    · exact hlonger.netlist _ _ (h.stage hold)
  · rcases Netlist.signal?_add_cases hs with ⟨hid, hnew⟩ | hs
    · rw [hnew] at hdriver
      obtain ⟨-, rfl⟩ := Driver.stage.inj hdriver
      refine ⟨_, rfl, ?_⟩
      rw [stages_grow_self, hid]
      exact Array.getElem?_push_size
    · obtain ⟨k, hdepth, hk⟩ := h.place hs hdriver
      exact ⟨k, hdepth, hlonger.stages hk⟩
  · rw [answers_grow] at hanswer
    obtain ⟨k, hcycle, hk⟩ := h.answer hanswer
    exact ⟨k, hcycle, hlonger.stages hk⟩

theorem Rooted.growBy (count : Nat) : (d.growBy root count).Rooted root := by
  induction count with
  | zero => exact h
  | succ count ih => exact ih.grow

theorem Rooted.remember {k : Nat} {id : SignalId} (hk : (d.stages root.id)[k]? = some id) :
    (d.remember root.id (root.cycle + (k + 1)) id).Rooted root where
  id_eq := h.id_eq
  mem := h.mem
  nonstage := h.nonstage
  stage hk' := by
    rw [stages_remember] at hk'
    rw [stem_congr (stem_line_remember _ _ _ _)]
    exact h.stage hk'
  place hs hdriver := by
    rw [stages_remember]
    exact h.place hs hdriver
  answer {cycle id'} hanswer := by
    rw [stages_remember]
    rw [answers_remember, if_pos rfl, Std.TreeMap.getElem?_insert] at hanswer
    split at hanswer
    next hcycle =>
      rw [Std.compare_eq_iff_eq] at hcycle
      exact ⟨k, hcycle.symm, Option.some.inj hanswer ▸ hk⟩
    · exact h.answer hanswer

/-- What carries the value of `root` has `root` as its root. -/
theorem Rooted.root_eq (hs : d.netlist.signal? s.id = some s) {cycle : Nat}
    (hcarries : d.Carries root cycle s.id) : d.netlist.root s = root ∧ s.cycle = cycle := by
  rcases hcarries with ⟨rfl, hid⟩ | ⟨k, rfl, hk⟩
  · rw [hid, h.mem] at hs
    obtain rfl := Option.some.inj hs
    refine ⟨?_, rfl⟩
    unfold Netlist.root
    split
    next r depth hdriver =>
      have hstage := h.nonstage
      simp [Signal.isStage, hdriver] at hstage
    · rfl
  · have hstage := h.stage hk
    rw [hs, Option.some.injEq] at hstage
    refine ⟨?_, by rw [hstage]; rfl⟩
    rw [hstage]
    show (d.netlist.signal? root.id).getD _ = root
    rw [h.mem, Option.getD_some]

theorem Rooted.carries_mem {cycle : Nat} {id : SignalId} (hcarries : d.Carries root cycle id) :
    ∃ s, d.netlist.signal? id = some s ∧ s.id = id := by
  rcases hcarries with ⟨-, rfl⟩ | ⟨k, -, hk⟩
  · exact ⟨root, h.mem, rfl⟩
  · exact ⟨_, h.stage hk, rfl⟩

end Rooted

/-- One signal carries a value in a cycle. -/
theorem Carries.unique {cycle : Nat} {id id' : SignalId} (h : d.Carries root cycle id)
    (h' : d.Carries root cycle id') : id = id' := by
  rcases h with ⟨hcycle, rfl⟩ | ⟨k, hcycle, hk⟩
  · rcases h' with ⟨-, rfl⟩ | ⟨k', hcycle', -⟩
    · rfl
    · omega
  · rcases h' with ⟨hcycle', rfl⟩ | ⟨k', hcycle', hk'⟩
    · omega
    · obtain rfl : k = k' := by omega
      exact Option.some.inj (hk.symm.trans hk')

/-! ## Requests -/

/-- The same signals and stages as after `count` further stages behind `root`. -/
structure GrownBy (d : Dataflow) (root : Signal) (count : Nat) (d' : Dataflow) : Prop where
  netlist_eq : d'.netlist = (d.growBy root count).netlist
  stages_eq : ∀ r, d'.stages r = (d.growBy root count).stages r
  stem_eq : (d'.line root.id).stem = (d.line root.id).stem
  others : ∀ r, r ≠ root.id → d'.line r = d.line r

theorem grownBy_growBy (d : Dataflow) (root : Signal) (count : Nat) :
    d.GrownBy root count (d.growBy root count) :=
  ⟨rfl, fun _ => rfl, stem_line_growBy count root.id, fun _ hr => line_growBy_of_ne count hr⟩

theorem GrownBy.remember (h : d.GrownBy root count d') (cycle : Nat) (id : SignalId) :
    d.GrownBy root count (d'.remember root.id cycle id) where
  netlist_eq := h.netlist_eq
  stages_eq r := (stages_remember _ _ _ _).trans (h.stages_eq r)
  stem_eq := (stem_line_remember _ _ _ _).trans h.stem_eq
  others r hr := by
    rw [← h.others r hr, Dataflow.remember, line_setLine, if_neg (Ne.symm hr)]

theorem GrownBy.gains (h : d.GrownBy root count d') : d.Gains root count d' := by
  obtain ⟨hsignals, hstages, -⟩ := gains_growBy d root count
  exact ⟨h.netlist_eq ▸ hsignals, h.stages_eq root.id ▸ hstages, h.others⟩

theorem GrownBy.size_eq (h : d.GrownBy root count d') :
    (d'.stages root.id).size = (d.stages root.id).size + count := by
  rw [h.stages_eq, size_stages_growBy]

/-- Stages that are appended in two steps. -/
theorem GrownBy.trans {more : Nat} (h : d.GrownBy root count d') (h' : d'.GrownBy root more d'') :
    d.GrownBy root (count + more) d'' where
  netlist_eq := by
    rw [h'.netlist_eq, ← growBy_add]
    refine netlist_growBy_congr h.netlist_eq ?_ ?_ more
    · rw [stem_growBy, stem_congr h.stem_eq]
    · rw [h.size_eq, size_stages_growBy]
  stages_eq r := by
    by_cases hr : r = root.id
    · subst hr
      apply Array.toList_inj.mp
      obtain ⟨-, hfirst, -⟩ := h.gains
      obtain ⟨-, hsecond, -⟩ := h'.gains
      obtain ⟨-, hboth, -⟩ := gains_growBy d root (count + more)
      rw [hsecond, hfirst, hboth, List.append_assoc]
      congr 1
      simp only [nextStages, List.map_map, List.range_add, List.map_append]
      congr 1
      apply List.map_congr_left
      intro k _
      show d'.netlist.size + k = d.netlist.size + (count + k)
      rw [h.netlist_eq, size_netlist_growBy, Nat.add_assoc]
    · rw [stages, h'.others r hr, h.others r hr, stages, line_growBy_of_ne _ hr]
  stem_eq := h'.stem_eq.trans h.stem_eq
  others r hr := (h'.others r hr).trans (h.others r hr)

/-- A request is answered with `id`. -/
structure Answered (d : Dataflow) (root s : Signal) (cycle : Nat) (id : SignalId)
    (d' : Dataflow) : Prop where
  le : s.cycle ≤ cycle
  free : d.Unhindered root (cycle - root.cycle)
  grown : d.GrownBy root (cycle - root.cycle - (d.stages root.id).size) d'
  rooted : d'.Rooted root
  carries : d'.Carries root cycle id
  kept : cycle = s.cycle → id = s.id ∧ d' = d

/-- A request is refused. -/
inductive Refused (d : Dataflow) (root s : Signal) (cycle : Nat) (e : Fault) (d' : Dataflow) :
    Prop where
  | early (lt : cycle < s.cycle) (fault_eq : e = .backwardReference s.name s.cycle cycle)
      (kept : d' = d)
  | hindered (count : Nat) (lt : s.cycle < cycle)
      (short : (d.stages root.id).size + count < cycle - root.cycle)
      (hindered : d.Hindered root count e) (grown : d' = d.growBy root count)

/-- A request for which all stages are there. -/
theorem Rooted.answered (h : d.Rooted root) {cycle : Nat} {id : SignalId} (hle : s.cycle ≤ cycle)
    (hcarries : d.Carries root cycle id) (hkept : cycle = s.cycle → id = s.id) :
    d.Answered root s cycle id d := by
  have hsize := hcarries.le_size
  refine ⟨hle, fun k hlow hhigh => absurd hlow (by omega), ?_, h, hcarries,
    fun hcycle => ⟨hkept hcycle, rfl⟩⟩
  rw [Nat.sub_eq_zero_of_le hsize]
  exact grownBy_growBy d root 0

/-- A request whose stages were appended and whose answer is noted. -/
theorem GrownBy.answered {cycle k : Nat} {id : SignalId} (h : d.GrownBy root count d')
    (hrooted : d'.Rooted root) (hlt : s.cycle < cycle) (hcycle : cycle = root.cycle + (k + 1))
    (hcount : count = k + 1 - (d.stages root.id).size)
    (hfree : d.Unhindered root ((d.stages root.id).size + count))
    (hk : (d'.stages root.id)[k]? = some id) :
    d.Answered root s cycle id (d'.remember root.id cycle id) where
  le := Nat.le_of_lt hlt
  free depth hlow hhigh := hfree depth hlow (by omega)
  grown := by
    rw [hcycle, Nat.add_sub_cancel_left, ← hcount]
    exact h.remember _ id
  rooted := hcycle ▸ hrooted.remember hk
  carries := .inr ⟨k, hcycle, (stages_remember _ _ _ _).symm ▸ hk⟩
  kept hsame := absurd hsame (Nat.ne_of_gt hlt)

/-- The outcome of a request, for every signal that carries the value of `root`. -/
theorem wp_resolve_exact (h : d.Rooted root) (hs : d.netlist.signal? s.id = some s)
    (hcarries : d.Carries root s.cycle s.id) (cycle : Nat) :
    (resolve s cycle).wp (d.Answered root s cycle) (d.Refused root s cycle) d := by
  have hroot := (h.root_eq hs hcarries).1
  have hrootle := hcarries.le
  unfold resolve
  rw [wp_ite]
  refine ⟨fun hlt => .early hlt rfl rfl, fun hge => ?_⟩
  rw [wp_ite]
  constructor
  · rintro rfl
    exact h.answered (Nat.le_refl _) hcarries fun _ => rfl
  intro hne
  have hlt : s.cycle < cycle := by omega
  rw [wp_bind, wp_get]
  dsimp only
  rw [hroot]
  split
  next id hanswer =>
    obtain ⟨k, hcycle, hk⟩ := h.answer hanswer
    exact h.answered (Nat.le_of_lt hlt) (.inr ⟨k, hcycle, hk⟩) fun hsame => absurd hsame hne
  next hanswer =>
    obtain ⟨k, hcycle⟩ : ∃ k, cycle = root.cycle + (k + 1) :=
      ⟨cycle - root.cycle - 1, by omega⟩
    have hgap : cycle - root.cycle = k + 1 := by omega
    rw [hgap, wp_bind]
    refine (wp_addStages_exact d root _).mono ?_ ?_
    · rintro - d' ⟨hfree, rfl⟩
      simp only [wp_bind, wp_get, wp_modify, wp_pure, Nat.add_sub_cancel]
      have hgrown := grownBy_growBy d root (k + 1 - (d.stages root.id).size)
      refine hgrown.answered (h.growBy _) hlt hcycle rfl hfree ?_
      have hbound : k < ((d.growBy root (k + 1 - (d.stages root.id).size)).stages root.id).size := by
        rw [hgrown.size_eq]
        omega
      exact (Array.getElem?_eq_getElem hbound).trans (congrArg some (dif_pos hbound).symm)
    · rintro e d' ⟨count, hcount, hhindered, rfl⟩
      refine .hindered count hlt ?_ hhindered rfl
      change count < k + 1 - (d.stages root.id).size at hcount
      omega

end Retime.Dataflow

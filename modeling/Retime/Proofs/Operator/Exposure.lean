import Retime.Proofs.Dataflow.Exact
import Retime.Proofs.Operator.Conservation
import Retime.Proofs.Operator.Finish

/-! # The exposure of outputs

An open operator can be finished if and only if the names of the signals that carry its outputs
to the last cycle are free. An output that was declared earlier is then held in a new signal and
driven by the last of the stages behind it; every other output is driven by its expression.
-/

namespace Retime.Operator

open Retime.Action Dataflow

/-! ## What is to be shown -/

/-- `name` belongs to a signal that carries the output to the cycle `depth`. -/
def Realigns (op : Operator) (depth : Nat) (out : OutputPort) (name : String) : Prop :=
  ∃ s, op.flow.netlist.signal? out.signal = some s ∧ s.cycle < depth ∧
    ∃ k ≤ depth - s.cycle, name = stageName s.name k

/-- The signal `base` is not in `old`. It holds the value of `s`, and the stages behind it lead
to the cycle `depth`, where `last` is valid. -/
structure Realigned (old d : Dataflow) (s : Signal) (depth : Nat) (base last : SignalId) :
    Prop where
  fresh : old.netlist.size ≤ base
  held_mem : d.netlist.signal? base = some ⟨held s, base⟩
  size_eq : (d.stages base).size = depth - s.cycle
  stage : ∀ {k : Nat} {id : SignalId}, (d.stages base)[k]? = some id →
    d.netlist.signal? id = some ⟨stageOf ⟨held s, base⟩ s.name (k + 1), id⟩
  last_eq : (d.stages base)[depth - s.cycle - 1]? = some last

/-- What realigning `s` to the cycle `depth` adds to `d`. -/
structure Prepared (s : Signal) (depth : Nat) (d : Dataflow) (base last : SignalId)
    (d' : Dataflow) : Prop where
  realigned : Realigned d d' s depth base last
  free : ∀ k ≤ depth - s.cycle, d.netlist.contains (stageName s.name k) = false
  contains_iff : ∀ name, d'.netlist.contains name = true ↔ d.netlist.contains name = true ∨
    ∃ k ≤ depth - s.cycle, name = stageName s.name k
  others : ∀ r < d.netlist.size, d'.line r = d.line r

/-- An output leaves in the cycle `depth`, either directly or after a realignment. -/
inductive ExposedAs (depth : Nat) (old d : Dataflow) (out : OutputPort) : ExposedOutput → Prop where
  | direct (s : Signal) (mem : d.netlist.signal? out.signal = some s) (cycle_eq : s.cycle = depth) :
      ExposedAs depth old d out { delay := out.delay, realignment := none }
  | realigned (s : Signal) (base last : SignalId)
      (mem : d.netlist.signal? out.signal = some s) (lt : s.cycle < depth)
      (line : Realigned old d s depth base last) :
      ExposedAs depth old d out { delay := 0, realignment := some ⟨s.id, base, last⟩ }

variable {op op' op'' : Operator} {d d' d'' : Dataflow} {s : Signal} {depth : Nat}
  {base last : SignalId}

/-! ## One output -/

theorem root_held (n : Netlist) (hdriver : ∀ r k, s.driver ≠ .stage r k) (base : SignalId) :
    n.root ⟨held s, base⟩ = ⟨held s, base⟩ := by
  unfold Netlist.root
  split
  next r k hstage => exact absurd hstage (hdriver r k)
  · rfl

/-- The signal that holds the value of `s` is declared, and the stages behind it are named after
`s`. -/
def hold (d : Dataflow) (s : Signal) : Dataflow :=
  ({ d with netlist := d.netlist.add (held s) } : Dataflow).setStem d.netlist.size s.name

theorem stem_hold : (hold d s).stem ⟨held s, d.netlist.size⟩ = s.name := by
  simp [Dataflow.stem, hold, setStem]

theorem contains_hold {name : String} : (hold d s).netlist.contains name = true ↔
    d.netlist.contains name = true ∨ name = stageName s.name 0 := by
  show (d.netlist.add (held s)).contains name = true ↔ _
  rw [Netlist.contains_add, Bool.or_eq_true, beq_iff_eq, or_comm]
  exact or_congr_right eq_comm

theorem line_hold {r : SignalId} (hr : r < d.netlist.size) : (hold d s).line r = d.line r := by
  rw [hold, setStem, line_setLine, if_neg (Nat.ne_of_gt hr)]
  rfl

/-- A request behind a new signal for the value of `s`. -/
theorem prepared_of_answered (hfree : d.netlist.contains (stageName s.name 0) = false)
    (hempty : (hold d s).stages d.netlist.size = #[]) (hlt : s.cycle < depth)
    (h : (hold d s).Answered ⟨held s, d.netlist.size⟩ ⟨held s, d.netlist.size⟩ depth last d') :
    Prepared s depth d d.netlist.size last d' := by
  have hsize : ((hold d s).stages d.netlist.size).size = 0 := by rw [hempty]; rfl
  have hgrown : (hold d s).GrownBy ⟨held s, d.netlist.size⟩ (depth - s.cycle) d' := by
    have hall := h.grown
    change (hold d s).GrownBy _ (depth - s.cycle - ((hold d s).stages d.netlist.size).size) _ at hall
    rwa [hsize, Nat.sub_zero] at hall
  have hstem : d'.stem ⟨held s, d.netlist.size⟩ = s.name :=
    (stem_congr hgrown.stem_eq).trans stem_hold
  refine ⟨⟨Nat.le_refl _, h.rooted.mem, ?_, fun hk => ?_, ?_⟩, fun k hk => ?_, fun name => ?_,
    fun r hr => ?_⟩
  · exact hgrown.size_eq.trans (by rw [hsize, Nat.zero_add])
  · exact hstem ▸ h.rooted.stage hk
  · obtain ⟨hsame, -⟩ | ⟨k, hcycle, hk⟩ := h.carries
    · exact absurd hlt (Nat.not_lt_of_ge (Nat.le_of_eq hsame))
    · have hplace : depth - s.cycle - 1 = k := by
        change depth = s.cycle + (k + 1) at hcycle
        omega
      exact hplace ▸ hk
  · rcases Nat.eq_zero_or_pos k with rfl | hpos
    · exact hfree
    · have hname := h.free k (hsize ▸ hpos) hk
      rw [stem_hold] at hname
      exact Bool.eq_false_iff.mpr fun htaken =>
        Bool.eq_false_iff.mp hname (contains_hold.mpr (.inl htaken))
  · rw [hgrown.netlist_eq, contains_growBy_iff, contains_hold, stem_hold, or_assoc]
    simp only [hsize, Nat.zero_add]
    refine or_congr_right ⟨?_, ?_⟩
    · rintro (hname | ⟨k, -, hk, hname⟩)
      · exact ⟨0, Nat.zero_le _, hname⟩
      · exact ⟨k, by omega, hname⟩
    · rintro ⟨k, hk, hname⟩
      rcases Nat.eq_zero_or_pos k with rfl | hpos
      · exact .inl hname
      · exact .inr ⟨k, hpos, by omega, hname⟩
  · rw [hgrown.others r (Nat.ne_of_lt hr), line_hold hr]

/-- The value of an output is carried on as long as the names for it are free. -/
theorem wp_carry_exact (h : d.Sound) (hdriver : ∀ r k, s.driver ≠ .stage r k)
    (hlt : s.cycle < depth) :
    (carry s depth).wp (fun ends => Prepared s depth d ends.1 ends.2)
      (fun e _ => ∃ k ≤ depth - s.cycle, d.netlist.contains (stageName s.name k) = true ∧
        e = .duplicateSignal (stageName s.name k)) d := by
  unfold carry
  simp only [wp_bind, wp_declare, wp_modify]
  refine ⟨fun htaken => ⟨0, Nat.zero_le _, htaken, rfl⟩, fun hfree => ?_⟩
  have hnone : d.stages d.netlist.size = #[] :=
    h.stages_of_none (Netlist.signal?_eq_none (Nat.le_refl _))
  have hdeclared : Dataflow.Sound { d with netlist := d.netlist.add (held s) } :=
    h.declare hfree hdriver
  have hheld : (hold d s).Sound := hdeclared.setStem hnone s.name
  have hempty : (hold d s).stages d.netlist.size = #[] :=
    (stages_setStem _ _ _).trans hnone
  have hin : (hold d s).netlist.signal? d.netlist.size = some ⟨held s, d.netlist.size⟩ :=
    Netlist.signal?_add_size (held s)
  obtain ⟨hrooted, hcarries⟩ := hheld.rooted (s := ⟨held s, d.netlist.size⟩) hin
  rw [root_held _ hdriver] at hrooted hcarries
  refine (wp_resolve_exact hrooted hin hcarries depth).mono ?_ ?_
  · exact fun last d' hd' => prepared_of_answered hfree hempty hlt hd'
  · rintro e d' (⟨hearly, -, -⟩ | ⟨count, -, hshort, hhindered, -⟩)
    · exact absurd hearly (Nat.not_lt_of_lt hlt)
    · obtain ⟨-, htaken, hfault⟩ := hhindered
      have hsize : ((hold d s).stages d.netlist.size).size = 0 := by rw [hempty]; rfl
      rw [stem_hold, hsize, Nat.zero_add, contains_hold] at htaken
      rw [stem_hold, hsize, Nat.zero_add] at hfault
      rw [hsize, Nat.zero_add] at hshort
      refine ⟨count + 1, hshort, ?_, hfault⟩
      rcases htaken with htaken | hname
      · exact htaken
      · exact absurd (stageName_injective hname).2 (Nat.succ_ne_zero count)

theorem wp_expose_exact (h : op.Sound) {out : OutputPort} (hout : out ∈ op.outputs)
    (hs : op.flow.netlist.signal? out.signal = some s) (hle : s.cycle ≤ depth) :
    (expose depth out).wp
      (fun e op' => s.cycle = depth ∧ e = ⟨out.delay, none⟩ ∧ op'.flow = op.flow ∨
        s.cycle < depth ∧ ∃ base last, e = ⟨0, some ⟨s.id, base, last⟩⟩ ∧
          Prepared s depth op.flow base last op'.flow)
      (fun e _ => s.cycle < depth ∧ ∃ k ≤ depth - s.cycle,
        op.flow.netlist.contains (stageName s.name k) = true ∧
          e = .duplicateSignal (stageName s.name k)) op := by
  obtain ⟨s', text, hs', hdriver⟩ := h.outputs out hout
  obtain rfl := Option.some.inj (hs.symm.trans hs')
  unfold expose
  rw [wp_bind, wp_get]
  simp only [hs, wp_ite]
  refine ⟨fun hcycle => .inl ⟨hcycle, rfl, rfl⟩, fun hcycle => ?_⟩
  have hlt : s.cycle < depth := Nat.lt_of_le_of_ne hle hcycle
  rw [wp_bind, wp_onFlow]
  refine (wp_carry_exact h.flow (by simp [hdriver]) hlt).mono ?_ ?_
  · exact fun ends d' hd' => .inr ⟨hlt, ends.1, ends.2, rfl, hd'⟩
  · exact fun e d' he => ⟨hlt, he⟩

/-! ## All outputs -/

/-- The outputs `done` were exposed in the cycle `depth`, under names that were free. -/
structure Exposed (depth : Nat) (op op' : Operator) (done : List OutputPort)
    (exposed : List ExposedOutput) : Prop where
  aligned : Aligned depth op op' done
  outputs : List.Forall₂ (ExposedAs depth op.flow op'.flow) done exposed
  free : ∀ out ∈ done, ∀ name, op.Realigns depth out name →
    op.flow.netlist.contains name = false
  contains_iff : ∀ name, op'.flow.netlist.contains name = true ↔
    op.flow.netlist.contains name = true ∨ ∃ out ∈ done, op.Realigns depth out name

theorem Realigned.mono {old older : Dataflow} (h : Realigned old d s depth base last)
    (hold : older.netlist.size ≤ old.netlist.size) (hext : d.Extends d')
    (hlines : ∀ r < d.netlist.size, d'.line r = d.line r) :
    Realigned older d' s depth base last := by
  have hline : d'.stages base = d.stages base :=
    congrArg (·.stages) (hlines base (Netlist.lt_size_of_signal? h.held_mem))
  refine ⟨Nat.le_trans hold h.fresh, hext.netlist _ _ h.held_mem, ?_, fun hk => ?_, ?_⟩
  · rw [hline, h.size_eq]
  · exact hext.netlist _ _ (h.stage (hline ▸ hk))
  · rw [hline, h.last_eq]

theorem ExposedAs.mono {old : Dataflow} {out : OutputPort} {e : ExposedOutput}
    (h : ExposedAs depth old d out e) (hext : d.Extends d')
    (hlines : ∀ r < d.netlist.size, d'.line r = d.line r) : ExposedAs depth old d' out e := by
  cases h with
  | direct s mem cycle_eq => exact .direct s (hext.netlist _ _ mem) cycle_eq
  | realigned s base last mem lt line =>
      exact .realigned s base last (hext.netlist _ _ mem) lt
        (line.mono (Nat.le_refl _) hext hlines)

section Exposed

variable {done : List OutputPort} {exposed : List ExposedOutput} {out : OutputPort}
  (h : Exposed depth op op' done exposed)
  (hs : op.flow.netlist.signal? out.signal = some s)
include h hs

theorem Exposed.direct (hone : Aligned depth op' op'' [out]) (hcycle : s.cycle = depth)
    (hflow : op''.flow = op'.flow) :
    Exposed depth op op'' (done ++ [out]) (exposed ++ [⟨out.delay, none⟩]) := by
  have hs'' := hone.extends_flow.netlist _ _ (h.aligned.extends_flow.netlist _ _ hs)
  -- an output in the last cycle needs no names
  have hnone : ∀ name, ¬ op.Realigns depth out name := by
    rintro name ⟨s', hs', hlt, -⟩
    obtain rfl := Option.some.inj (hs.symm.trans hs')
    exact Nat.ne_of_lt hlt hcycle
  refine ⟨h.aligned.append hone ⟨s, hs⟩, ?_, ?_, fun name => ?_⟩
  · refine List.rel_append ?_ (.cons (.direct s hs'' hcycle) .nil)
    rw [hflow]
    exact h.outputs
  · intro out' hout' name hname
    rcases List.mem_append.mp hout' with hout' | hout'
    · exact h.free out' hout' name hname
    · exact absurd (List.mem_singleton.mp hout' ▸ hname) (hnone name)
  · rw [hflow, h.contains_iff]
    simp [or_and_right, exists_or, hnone name]

theorem Exposed.prepared (hone : Aligned depth op' op'' [out]) (hlt : s.cycle < depth)
    (hprepared : Prepared s depth op'.flow base last op''.flow) :
    Exposed depth op op'' (done ++ [out])
      (exposed ++ [⟨0, some ⟨s.id, base, last⟩⟩]) := by
  have hs'' := hone.extends_flow.netlist _ _ (h.aligned.extends_flow.netlist _ _ hs)
  have hnames : ∀ name, op.Realigns depth out name ↔
      ∃ k ≤ depth - s.cycle, name = stageName s.name k := by
    intro name
    constructor
    · rintro ⟨s', hs', -, hk⟩
      obtain rfl := Option.some.inj (hs.symm.trans hs')
      exact hk
    · exact fun hk => ⟨s, hs, hlt, hk⟩
  refine ⟨h.aligned.append hone ⟨s, hs⟩, ?_, ?_, fun name => ?_⟩
  · refine List.rel_append (h.outputs.imp fun _ _ he => ?_) (.cons ?_ .nil)
    · exact he.mono hone.extends_flow hprepared.others
    · refine .realigned s base last hs'' hlt (hprepared.realigned.mono ?_ (.refl _) fun _ _ => rfl)
      exact h.aligned.extends_flow.netlist.size_le
  · intro out' hout' name hname
    rcases List.mem_append.mp hout' with hout' | hout'
    · exact h.free out' hout' name hname
    · rw [List.mem_singleton.mp hout', hnames] at hname
      obtain ⟨k, hk, rfl⟩ := hname
      exact Bool.eq_false_iff.mpr fun htaken =>
        Bool.eq_false_iff.mp (hprepared.free k hk) ((h.contains_iff _).mpr (.inl htaken))
  · rw [hprepared.contains_iff, h.contains_iff, ← hnames]
    simp [or_and_right, exists_or, or_assoc]

/-- No output gets in the way of another one. -/
theorem Exposed.taken (hlawful : op.flow.netlist.Lawful)
    (hother : ∀ out' ∈ done, out'.signal ≠ out.signal) {k : Nat}
    (htaken : op'.flow.netlist.contains (stageName s.name k) = true) :
    op.flow.netlist.contains (stageName s.name k) = true := by
  rcases (h.contains_iff _).mp htaken with htaken | ⟨out', hout', s', hs', -, k', -, hname⟩
  · exact htaken
  · have hid := hlawful.id_eq hs
    have hid' := hlawful.id_eq hs'
    have hsame : s = s' :=
      hlawful.eq_of_name (hid.symm ▸ hs) (hid'.symm ▸ hs') (stageName_injective hname).1
    exact absurd (hid'.symm.trans (hsame ▸ hid)) (hother out' hout')

end Exposed

/-- All outputs are exposed if the names for it are free, and otherwise the one that is taken is
reported. -/
theorem wp_exposes_exact (h : op.Sound) (hnodup : (op.outputs.toList.map (·.signal)).Nodup)
    (hle : ∀ out ∈ op.outputs, ∀ s, op.flow.netlist.signal? out.signal = some s →
      s.cycle ≤ depth) :
    (forEach (expose depth) op.outputs.toList).wp
      (fun exposed op' => Exposed depth op op' op.outputs.toList exposed)
      (fun e _ => ∃ out ∈ op.outputs, ∃ name, op.Realigns depth out name ∧
        op.flow.netlist.contains name = true ∧ e = .duplicateSignal name) op := by
  have hstart : Exposed depth op op [] [] :=
    ⟨aligned_nil h.flow, .nil, nofun, fun name => by simp⟩
  refine wp_forEach (fun done exposed op' => Exposed depth op op' done exposed) hstart ?_
  intro done out rest exposed op' hitems hexposed
  have hout : out ∈ op.outputs := by
    rw [← Array.mem_toList_iff, ← hitems]
    simp
  obtain ⟨s, text, hs, hdriver⟩ := h.outputs out hout
  have hother : ∀ out' ∈ done, out'.signal ≠ out.signal := by
    rw [← hitems, List.map_append, List.map_cons, List.nodup_append] at hnodup
    intro out' hout'
    exact hnodup.2.2 _ (List.mem_map_of_mem hout') _ List.mem_cons_self
  have hop' := hexposed.aligned.operator_sound h
  have hout' : out ∈ op'.outputs := hexposed.aligned.outputs ▸ hout
  have hs' := hexposed.aligned.extends_flow.netlist _ _ hs
  refine ((wp_expose hop' hout' depth).and
    (wp_expose_exact hop' hout' hs' (hle out hout s hs))).mono ?_ ?_
  · rintro e op'' ⟨⟨hone, -⟩, ⟨hcycle, rfl, hflow⟩ | ⟨hlt, base, last, rfl, hprepared⟩⟩
    · exact hexposed.direct hs hone hcycle hflow
    · exact hexposed.prepared hs hone hlt hprepared
  · rintro e op'' ⟨-, hlt, k, hk, htaken, rfl⟩
    exact ⟨out, hout, _, ⟨s, hs, hlt, k, hk, rfl⟩,
      hexposed.taken hs h.flow.lawful hother htaken, rfl⟩

/-! ## The schedule -/

section Schedule

variable {old : Dataflow} {outs : List OutputPort} {exposed : List ExposedOutput}
  {out : OutputPort} (h : List.Forall₂ (ExposedAs depth old d) outs exposed)
  (hlawful : d.netlist.Lawful) (hs : d.netlist.signal? s.id = some s)
include h hlawful hs

/-- A realignment for `s` is the line that carries `s` to the last cycle. -/
theorem realigned_of_mem {r : Realignment} (hr : r ∈ exposed.filterMap (·.realignment))
    (hid : r.output = s.id) : s.cycle < depth ∧ Realigned old d s depth r.base r.last := by
  obtain ⟨e, he, hrealigned⟩ := List.mem_filterMap.mp hr
  obtain ⟨out, -, hexposed⟩ := exists_left_of_forall₂ h he
  cases hexposed with
  | direct s' mem cycle_eq => cases hrealigned
  | realigned s' base last mem lt line =>
      obtain rfl := Option.some.inj hrealigned
      have hmem : d.netlist.signal? s'.id = some s' := (hlawful.id_eq mem).symm ▸ mem
      dsimp only at hid
      rw [hid, hs] at hmem
      obtain rfl := Option.some.inj hmem
      exact ⟨lt, line⟩

theorem find?_realignment_of_last (hcycle : s.cycle = depth) :
    (exposed.filterMap (·.realignment)).find? (·.output = s.id) = none := by
  refine List.find?_eq_none.mpr fun r hr hid => ?_
  have hlt := (realigned_of_mem h hlawful hs hr (by simpa using hid)).1
  exact Nat.ne_of_lt hlt hcycle

theorem find?_realignment_of_lt (hout : out ∈ outs) (hid : out.signal = s.id)
    (hlt : s.cycle < depth) : ∃ r,
      (exposed.filterMap (·.realignment)).find? (·.output = s.id) = some r ∧
        Realigned old d s depth r.base r.last := by
  obtain ⟨e, he, hexposed⟩ := exists_right_of_forall₂ h hout
  cases hfind : (exposed.filterMap (·.realignment)).find? (·.output = s.id) with
  | some r =>
      have hr := List.mem_of_find?_eq_some hfind
      exact ⟨r, rfl, (realigned_of_mem h hlawful hs hr (by simpa using List.find?_some hfind)).2⟩
  | none =>
      cases hexposed with
      | direct s' mem cycle_eq =>
          rw [hid, hs] at mem
          obtain rfl := Option.some.inj mem
          exact absurd cycle_eq (Nat.ne_of_lt hlt)
      | realigned s' base last mem lt line =>
          rw [hid, hs] at mem
          obtain rfl := Option.some.inj mem
          have hr : (⟨s.id, base, last⟩ : Realignment) ∈ exposed.filterMap (·.realignment) :=
            List.mem_filterMap.mpr ⟨_, he, rfl⟩
          simpa using List.find?_eq_none.mp hfind _ hr

end Schedule

theorem LaidOut.filter_dated_assignments {exposed : List ExposedOutput} {schedule : Schedule}
    (h : LaidOut op depth exposed schedule) (hsound : op.flow.Sound)
    (hs : op.flow.netlist.signal? s.id = some s) :
    (schedule.dated (·.assignments)).filter (·.2.target = s.id) =
      (assignment? depth (exposed.filterMap (·.realignment)) s).toList :=
  hsound.lawful.filter_target hs (·.2.target) (fun _ _ => target_of_assignment?)
    h.dated_assignments

/-- How an output leaves by the schedule. -/
structure LeavesBy (op op' : Operator) (schedule : Schedule) (place : Nat) (out : OutputPort)
    (s : Signal) : Prop where
  realigned : s.cycle < op.exposure → ∃ base last,
    Realigned op.flow op'.flow s op.exposure base last ∧
      (∀ text, s.driver = .expr text →
        (schedule.dated (·.assignments)).filter (·.2.target = base) =
          [(s.cycle, ⟨base, .expr text⟩)]) ∧
      (schedule.dated (·.assignments)).filter (·.2.target = s.id) =
        [(op.exposure, ⟨s.id, .signal last⟩)] ∧
      schedule.outputDelays[place]? = some 0
  direct : s.cycle = op.exposure → ∀ text, s.driver = .expr text →
    (schedule.dated (·.assignments)).filter (·.2.target = s.id) =
        [(op.exposure, ⟨s.id, .expr text⟩)] ∧
      schedule.outputDelays[place]? = some out.delay

theorem Exposed.leavesBy {exposed : List ExposedOutput} {schedule : Schedule}
    (h : Exposed op.exposure op op' op.outputs.toList exposed)
    (hlaid : LaidOut op' op.exposure exposed schedule) {place : Nat} {out : OutputPort}
    (hout : op.outputs[place]? = some out)
    (hs : op.flow.netlist.signal? out.signal = some s) (hrole : s.role = .output) {text : String}
    (hdriver : s.driver = .expr text) : op.LeavesBy op' schedule place out s := by
  have hlawful := h.aligned.sound.lawful
  have hmem := h.aligned.extends_flow.netlist _ _ hs
  have hid : s.id = out.signal := hlawful.id_eq hmem
  have hs' : op'.flow.netlist.signal? s.id = some s := hid.symm ▸ hmem
  have hassigned := hlaid.filter_dated_assignments h.aligned.sound hs'
  rw [← Array.getElem?_toList] at hout
  obtain ⟨e, he, hexposed⟩ := getElem?_of_forall₂ h.outputs hout
  have hdelay : schedule.outputDelays[place]? = some e.delay := by
    rw [hlaid.outputDelays_eq, List.getElem?_map, he]
    rfl
  constructor
  · intro hlt
    obtain ⟨r, hfind, hline⟩ := find?_realignment_of_lt h.outputs hlawful hs'
      (List.mem_of_getElem? hout) hid.symm hlt
    refine ⟨r.base, r.last, hline, fun text' hdriver' => ?_, ?_, ?_⟩
    · have hheld : (held s).driver = .expr text' := hdriver'
      refine (hlaid.filter_dated_assignments h.aligned.sound (s := ⟨held s, r.base⟩)
        hline.held_mem).trans ?_
      simp only [assignment?, hheld]
      rfl
    · rw [hassigned]
      simp only [assignment?, hrole, hdriver, hfind, Option.toList_some]
    · rw [hdelay]
      cases hexposed with
      | direct s' mem cycle_eq =>
          obtain rfl := Option.some.inj (hmem.symm.trans mem)
          exact absurd cycle_eq (Nat.ne_of_lt hlt)
      | realigned => rfl
  · intro hcycle text' hdriver'
    obtain rfl : text = text' := Driver.expr.inj (hdriver.symm.trans hdriver')
    refine ⟨?_, ?_⟩
    · rw [hassigned]
      simp only [assignment?, hrole, hdriver, hcycle,
        find?_realignment_of_last h.outputs hlawful hs' hcycle, Option.toList_some]
    · rw [hdelay]
      cases hexposed with
      | direct => rfl
      | realigned s' base last mem lt line =>
          obtain rfl := Option.some.inj (hmem.symm.trans mem)
          exact absurd hcycle (Nat.ne_of_lt lt)

end Retime.Operator

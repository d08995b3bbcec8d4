import Retime.Proofs.Operator.Binding

/-! # Consumption

A consumption that succeeds answers with the name of a signal that carries the value in the
current cycle. Stages may have been appended behind the root of the signal that was asked for;
nothing else changes but the note that it was read.
-/

namespace Retime.Operator

open Retime.Action Dataflow

/-- `a` was answered when `name` was consumed in `op`. -/
structure Consumed (name : String) (op : Operator) (a : String) (op' : Operator) : Prop where
  lengthened : op.Lengthened op'
  schedule : op'.schedule = op.schedule
  timeline : op'.timeline = op.timeline
  answer : ∃ s t, op'.flow.netlist.find name = .ok s ∧ op'.flow.netlist.find a = .ok t ∧
    op'.flow.netlist.root t = op'.flow.netlist.root s ∧ t.width = s.width ∧
      t.cycle = op.timeline.cycle
  gains : ∃ root count, op.flow.netlist.signal? root.id = some root ∧
    op.flow.Gains root count op'.flow ∧
      (op'.flow.line root.id).stem = (op.flow.line root.id).stem

variable {op : Operator}

theorem wp_consume_exact (h : op.flow.Sound) (name : String) :
    (consume name).wp (Consumed name op) (fun _ _ => True) op := by
  unfold consume
  rw [wp_bind, wp_get, wp_bind]
  apply ((wp_read h name op.timeline.cycle).and (wp_read_exact h name op.timeline.cycle)).mono
  · rintro id op' ⟨⟨hlength, s, hs, rfl, hrole, hcarries, hrootmem⟩, s', d, hfind, hanswered, rfl⟩
    rw [wp_bind, wp_get, wp_pure]
    obtain ⟨hs', hname⟩ := h.lawful.find_ok.mp hfind
    obtain rfl := hlength.sound.lawful.eq_of_name (hlength.extends_flow.netlist _ _ hs') hs hname
    obtain ⟨hroot, -⟩ := h.root_spec hs'
    obtain ⟨hroot', hnone', -⟩ := hlength.sound.root_spec hs
    obtain ⟨t, ht, rfl, -, hcycle, hsame⟩ := hcarries.signal hlength.sound hroot' hnone'
      (hlength.sound.root_role hs hrole)
    have hwidth : t.width = s'.width := by
      rw [← hlength.sound.width_root ht, hsame, hlength.sound.width_root hs]
    refine ⟨hlength, rfl, rfl, ⟨s', t, ?_, ?_, hsame, hwidth, hcycle⟩, _, _, hroot,
      hanswered.grown.gains, hanswered.grown.stem_eq⟩
    · exact hlength.sound.lawful.find_ok.mpr ⟨hs, rfl⟩
    · exact hlength.sound.lawful.find_ok.mpr ⟨ht, (Netlist.name_of_signal ht).symm⟩
  · exact fun _ _ _ => trivial

end Retime.Operator

import Retime.Proofs.Checked.Calls
import Retime.Proofs.Library.Records
import Retime.Proofs.Verilog.SingleDriver

/-! # References

An operator refers to its signals by their ids: in its lists of ports, in the connections of its
instances and in its schedule. Whatever was called before, and whichever calls failed, all these
ids are in the table.
-/

namespace Retime.Operator

/-- A signal has that id. -/
def Has (op : Operator) (id : SignalId) : Prop :=
  ∃ s, op.flow.netlist.signal? id = some s

/-- All that the operator refers to is in the table. -/
structure Refers (op : Operator) : Prop where
  sound : op.Sound
  recorded : op.Recorded
  ports : op.PortsListed
  fits : ∀ {i : Nat} {inst}, op.instances[i]? = some inst → inst.Fits i op.flow.netlist
  value : ∀ {schedule}, op.schedule = some schedule → ∀ a ∈ schedule.assignments,
    ∀ id, a.value = .signal id → op.Has id

variable {op : Operator}

theorem refers_blank (handle : Handle) (name : String) (period : Float) (pipelined : Bool) :
    (blank handle name period pipelined).Refers where
  sound := sound_blank handle name period pipelined
  recorded := recorded_blank handle name period pipelined
  ports := portsListed_blank handle name period pipelined
  fits hi := by simp [blank] at hi
  value hschedule := by cases hschedule

theorem Refers.step (h : op.Refers) (entry : Library × Call) : (op.step entry).Refers where
  sound := (evolves_step h.sound entry).1
  recorded := h.recorded.step h.sound entry
  ports := keeps_step keeps_portsListed h.ports entry
  fits {i inst} hi := by
    have hext := ((evolves_step h.sound entry).2.extends h.sound.flow).netlist
    rcases placement_of_step h.sound entry with hsame | ⟨sub, name, wiring, inst', -, hplaced⟩
    · exact (h.fits (hsame ▸ hi)).mono hext
    · rw [hplaced.instances, Array.getElem?_push] at hi
      split at hi
      next hlast =>
        cases hi
        exact hlast ▸ hplaced.fits
      next => exact (h.fits hi).mono hext
  value hschedule a ha id hid := by
    rcases finished_of_step h.sound entry hschedule with hsame | ⟨exposed, hfinished⟩
    · rw [hsame] at hschedule ⊢
      exact h.value hschedule a ha id hid
    · exact hfinished.values ha hid

theorem Refers.after (h : op.Refers) (script : Script) : (op.after script).Refers := by
  induction script generalizing op with
  | nil => exact h
  | cons entry script ih => exact ih (h.step entry)

theorem Scripted.refers (h : op.Scripted) : op.Refers := by
  obtain ⟨handle, name, period, pipelined, script, rfl⟩ := h
  exact (refers_blank handle name period pipelined).after script

/-! ## What a schedule refers to -/

section Schedule

variable {schedule : Schedule} (h : op.Refers) (hschedule : op.schedule = some schedule)
include h hschedule

/-- What is assigned is a signal, and it is given its own expression or the value of another
one. -/
theorem Refers.assignment {a : Assignment} (ha : a ∈ schedule.assignments) :
    ∃ s, op.flow.netlist.signal? a.target = some s ∧
      ((∃ text, a.value = .expr text ∧ s.driver = .expr text) ∨
        ∃ id, a.value = .signal id ∧ op.Has id) := by
  obtain ⟨exposed, hlaid⟩ := h.recorded.schedule hschedule
  have hvalue := h.value hschedule a ha
  obtain ⟨⟨cycle, _⟩, hdated, rfl⟩ := List.mem_map.mp (hlaid.assignments_perm.mem_iff.mp ha)
  obtain ⟨s, hs, hassignment⟩ := List.mem_filterMap.mp hdated
  have htarget := target_of_assignment? hassignment
  refine ⟨s, htarget ▸ h.sound.flow.lawful.mem_signals.mp hs, ?_⟩
  unfold assignment? at hassignment
  split at hassignment
  next text hrole hdriver =>
    split at hassignment
    · cases hassignment
      exact .inr ⟨_, rfl, hvalue _ rfl⟩
    · cases hassignment
      exact .inl ⟨text, rfl, hdriver⟩
  next text hrole hdriver =>
    cases hassignment
    exact .inl ⟨text, rfl, hdriver⟩
  · cases hassignment

/-- A register is loaded from a signal. -/
theorem Refers.load {l : Load} (hl : l ∈ schedule.loads) : op.Has l.target ∧ op.Has l.source := by
  obtain ⟨exposed, hlaid⟩ := h.recorded.schedule hschedule
  obtain ⟨s, source, hs, -, hsource, rfl⟩ := hlaid.stage_of_load h.sound.flow hl
  exact ⟨⟨s, hs⟩, ⟨source, hsource⟩⟩

end Schedule

end Retime.Operator

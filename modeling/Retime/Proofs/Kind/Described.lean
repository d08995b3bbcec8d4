import Retime.Proofs.Kind.Feasible
import Retime.Proofs.Kind.Wired

/-! # How generated operators were described

An operator under the name of a built-in kind was described by the design of the kind on a new
operator, and finished; a sum of products, by copies of a multiplier that was generated first.
Where the only output of a description is valid in its last cycle, finishing adds no signal.
-/

namespace Retime

open Retime.Action Operator

namespace Library

variable {lib : Library} {op : Operator} {d : Design} {name : String} {settings : Settings}
  {device : Device} {kind : Kind}

/-! ## Finishing -/

/-- What is known when the output has been declared is known of the signals and copies that the
operator has when it is finished. -/
theorem finished_of_described {Q : Operator → Prop}
    (hrun : (run d).wp (fun _ s => s.operator.schedule = none ∧ s.operator.Ended ∧ Q s.operator)
      (fun _ _ => True) ⟨lib, op⟩)
    (hok : (finishing (run d) ⟨lib, op⟩).result = .ok ()) :
    ∃ op' delay schedule, Q op' ∧ op'.layOut op'.exposure [⟨delay, none⟩] = .ok schedule ∧
      (finishing (run d) ⟨lib, op⟩).state.operator = { op' with schedule := some schedule } := by
  refine (wp_finishing (Q := fun op'' => ∃ op' delay schedule, Q op' ∧
      op'.layOut op'.exposure [⟨delay, none⟩] = .ok schedule ∧
        op'' = { op' with schedule := some schedule }) (E := fun _ => True)
    (hrun.mono ?_ fun _ _ _ => trivial)).of_ok hok
  rintro - ⟨lib', op'⟩ ⟨hopen, hended, hQ⟩
  obtain ⟨s, delay, hs, hcycle, houtputs⟩ := hended.output
  have hexposure : op'.exposure = s.cycle :=
    exposure_of_single houtputs hs fun inst hinst => hcycle ▸ hended.delivered inst hinst
  obtain ⟨hdirect, hexposed⟩ := direct_of_single houtputs hs hexposure.symm
  refine ⟨hopen, (wp_finish_direct hdirect).mono ?_ fun _ _ _ => trivial⟩
  rintro - _ ⟨schedule, hlaid, rfl⟩
  rw [hexposed] at hlaid
  exact ⟨op', delay, schedule, hQ, hlaid, rfl⟩

/-- A design that comes to its end shows what it makes. -/
theorem shows_of_does {ports : List Port} {width : Width} {work : List Float}
    (hd : d.Does ports width work) {handle : Handle} {period : Float} {pipelined : Bool}
    (hok : (finishing (run d) ⟨lib, .blank handle name period pipelined⟩).result = .ok ()) :
    ∃ delay depth, (finishing (run d)
      ⟨lib, .blank handle name period pipelined⟩).state.operator.Shows ports ⟨"R", width, delay⟩
        depth := by
  obtain ⟨m, rfl, hm⟩ := hd
  have hblank : Progress (· = { period, pipelined }) [] [] [] []
      (.blank handle name period pipelined) := progress_blank rfl
  have hrun := (hm lib handle _).wp_run rfl hblank
  refine (wp_finishing (Q := fun op => ∃ delay depth, op.Shows ports ⟨"R", width, delay⟩ depth)
    (E := fun _ => True) (hrun.mono ?_ fun _ _ _ => trivial)).of_ok hok
  rintro - ⟨lib', op'⟩ ⟨-, -, start, t, copies, -, -, hdescribed, hcopies⟩
  refine ⟨hdescribed.unfinished, (hdescribed.wp_finish_shows hcopies).mono
    (fun _ _ hshows => ⟨_, _, hshows⟩) fun _ _ _ => trivial⟩

/-! ## Describing -/

/-- An operator that was generated first of all was described on a new operator. -/
theorem Alone.described (halone : Alone settings device kind op) :
    ∃ lib, Library.Reserves { settings, device } kind.name
        (.blank 0 kind.name device.period device.pipelined) lib ∧
      let o := finishing (run (kind.design device))
        ⟨lib, .blank 0 kind.name device.period device.pipelined⟩
      o.result = .ok () ∧ op.SameFace o.state.operator := by
  obtain ⟨h, op', hok, hop', hface⟩ := halone
  rw [generate_empty] at hok hop'
  obtain ⟨bare, lib, hres, hdone, hcom⟩ := ok_of_build hok
  rw [hcom.operator?, if_pos hcom.handle.symm] at hop'
  obtain rfl := Option.some.inj hop'
  obtain rfl : bare = .blank 0 kind.name device.period device.pipelined := hres.operator
  exact ⟨lib, hres, hdone, hface⟩

/-- What is generated first, and what follows. -/
theorem ok_of_finishing_generate {body : Design} {next : Handle → Design}
    (hok : (finishing (run (.generate name body next)) ⟨lib, op⟩).result = .ok ()) :
    ∃ sub, let o := obtain name (run body) lib
      o.result = .ok sub ∧ (finishing (run (next sub)) ⟨o.state, op⟩).result = .ok () ∧
        (finishing (run (.generate name body next)) ⟨lib, op⟩).state =
          (finishing (run (next sub)) ⟨o.state, op⟩).state := by
  refine wp.of_ok (Q := fun _ s => ∃ sub, let o := obtain name (run body) lib
      o.result = .ok sub ∧ (finishing (run (next sub)) ⟨o.state, op⟩).result = .ok () ∧
        s = (finishing (run (next sub)) ⟨o.state, op⟩).state) (E := fun _ _ => True) ?_ hok
  refine wp_finishing_generate.mpr (wp_zoom.mpr (wp_of_result.mono ?_ fun _ _ _ => trivial))
  rintro sub _ ⟨hsub, rfl⟩
  refine wp_of_result.mono ?_ fun _ _ _ => trivial
  rintro _ _ ⟨hdone, rfl⟩
  exact ⟨sub, hsub, hdone, rfl⟩

open Kind in
/-- A sum of products was described by copies of a multiplier. -/
theorem Alone.described_sum {width count : Nat} (hwidth : 1 ≤ width)
    (halone : Alone settings device (sumOfProducts width count) op) :
    ∃ lib sub itf out, lib.interface sub = .ok itf ∧ SumOfProducts.IsMultiplier width itf out ∧
      itf.name = (multiplier width).name ∧
      let o := finishing (run (SumOfProducts.sumCopies width count device sub).design)
        ⟨lib, .blank 0 (sumOfProducts width count).name device.period device.pipelined⟩
      o.result = .ok () ∧ op.SameFace o.state.operator := by
  obtain ⟨lib, hres, hdone, hface⟩ := halone.described
  rw [SumOfProducts.design_eq] at hdone hface
  obtain ⟨sub, hok, hdone', hstate⟩ := ok_of_finishing_generate hdone
  have hlib := hres.lawful (lawful_empty settings device)
  have habsent : lib.find? (multiplier width).name = none := by
    simp [find?, lookup, hres.index, sumOfProducts_name_ne width count width]
  have hgenerates := generates hlib (multiplier width).name
    (builds_run ((multiplier width).design device))
  obtain ⟨-, m, hm, -, hname⟩ := hgenerates.built habsent hok
  -- the multiplier was built, so it shows what its design makes
  obtain ⟨delay, depth, hshows⟩ : ∃ delay depth,
      m.Shows (Adder.ports width) ⟨"R", .vector (2 * width), delay⟩ depth := by
    rw [obtain_of_absent habsent] at hok hm
    obtain ⟨bare, lib₁, hres₁, hbuilt, hcom⟩ := ok_of_build hok
    rw [hcom.operator?, if_pos hcom.handle.symm] at hm
    obtain rfl := Option.some.inj hm
    obtain rfl := hres₁.operator
    exact shows_of_does (does_multiplier (Family.parts_pos hwidth device)) hbuilt
  obtain ⟨sequential, hitf⟩ := hshows.interface
  refine ⟨_, sub, _, _, interface_eq_ok.mpr ⟨m, hm, hitf⟩, ⟨rfl, rfl, rfl, rfl⟩, hname, hdone', ?_⟩
  rwa [hstate] at hface

end Library

end Retime

import Retime.Proofs.Kind.Products
import Retime.Proofs.Kind.Selects

/-! # The copies in sums of products

Every pair of words has a multiplier of its own, which is connected to the words as they are
taken, and to the product. Their sum is made when all products are there.
-/

namespace Retime

open Operator Dataflow Verilog Build

/-- The signal `id` has that name. -/
def Netlist.Names (n : Netlist) (id : SignalId) (name : String) : Prop :=
  ∃ s, n.signal? id = some s ∧ s.name = name

theorem Netlist.Names.mono {n n' : Netlist} {id : SignalId} {name : String} (h : n.Names id name)
    (hext : n.Extends n') : n'.Names id name := by
  obtain ⟨s, hs, hname⟩ := h
  exact ⟨s, hext _ _ hs, hname⟩

namespace Operator

variable {op : Operator} {d : Dataflow} {name : String} {w : Width} {id : SignalId}

/-- An input port is read as it is in the cycle in which it takes its word. -/
theorem TakesNow.names_of_reads (h : op.TakesNow name w) (hop : op.flow.Sound) (hd : d.Sound)
    (hext : op.flow.Extends d) (hreads : op.flow.Reads d name op.timeline.cycle id) :
    d.netlist.Names id name := by
  obtain ⟨s, hs, -, hcycle, hdriver⟩ := h
  obtain ⟨hs', rfl⟩ := hd.lawful.find_ok.mp (hext.find hop hd hs)
  obtain ⟨t, ht, hname, -, hcarries, -⟩ := hreads
  obtain rfl := hd.lawful.eq_of_name ht hs' hname
  have hroot : d.netlist.root t = t := by
    simp [Netlist.root, hdriver]
  rw [hroot, ← hcycle] at hcarries
  rcases hcarries with ⟨-, rfl⟩ | ⟨k, hlater, -⟩
  · exact ⟨t, hs', rfl⟩
  · omega

end Operator

namespace Kind.SumOfProducts

/-- The copy of pair `j` is connected to the two words and to the product. -/
structure IsCopy (itf : Interface) (j : Nat) (n : Netlist) (inst : Instance) : Prop where
  name_eq : inst.name = s!"mult{j}"
  interface_eq : inst.interface = itf
  inputs : ∃ a b, n.Names a s!"A{j}" ∧ n.Names b s!"B{j}" ∧
    inst.inputs = [("X", .signal a), ("Y", .signal b)]
  output : ∃ p, n.Names p (productName j) ∧ inst.outputs = [("R", some p)]

/-- The copies of the first `k` pairs are there, and no others. -/
structure Copies (itf : Interface) (k : Nat) (op : Operator) : Prop where
  size : op.instances.size = k
  copy : ∀ j < k, ∃ inst, op.instances[j]? = some inst ∧ IsCopy itf j op.flow.netlist inst

/-- The words of the first `i` pairs were taken. -/
structure PairsTaken (width i : Nat) (op : Operator) : Prop where
  outputs : op.outputs = #[]
  words : ∀ j < i, op.TakesNow s!"A{j}" (.vector width) ∧ op.TakesNow s!"B{j}" (.vector width)

/-- The first `i` copies have delivered. -/
structure Awaited (itf : Interface) (count i : Nat) (op : Operator) : Prop where
  outputs : op.outputs = #[]
  copies : Copies itf count op
  delivered : ∀ j < i, ∀ inst, op.instances[j]? = some inst → inst.outputCycle ≤ op.timeline.cycle

variable {lib : Library} {h : Handle} {device : Device} {width count i j : Nat} {itf : Interface}
  {out : Port} {sub : Handle} {op op' : Operator} {inst : Instance} {n n' : Netlist}

theorem IsCopy.mono (hcopy : IsCopy itf j n inst) (hext : n.Extends n') : IsCopy itf j n' inst where
  name_eq := hcopy.name_eq
  interface_eq := hcopy.interface_eq
  inputs := by
    obtain ⟨a, b, ha, hb, hinputs⟩ := hcopy.inputs
    exact ⟨a, b, ha.mono hext, hb.mono hext, hinputs⟩
  output := by
    obtain ⟨p, hp, houtputs⟩ := hcopy.output
    exact ⟨p, hp.mono hext, houtputs⟩

theorem Copies.mono (hcopies : Copies itf i op) (hext : op.flow.Extends op'.flow)
    (hinstances : op'.instances = op.instances) : Copies itf i op' where
  size := hinstances ▸ hcopies.size
  copy j hj := by
    obtain ⟨inst, hinst, hcopy⟩ := hcopies.copy j hj
    exact ⟨inst, hinstances ▸ hinst, hcopy.mono hext.netlist⟩

theorem enduring_copies (itf : Interface) (i : Nat) : Enduring (Copies itf i) where
  lasting _ _ hop hcopies := hcopies.mono hop.extends_flow hop.instances
  later _ _ _ hcopies := hcopies.mono (.refl _) rfl

/-- There are no copies yet. -/
theorem copies_zero : Copies itf 0 op ↔ op.instances = #[] := by
  constructor
  · exact fun hcopies => Array.eq_empty_of_size_eq_zero hcopies.size
  · exact fun hnone => ⟨by simp [hnone], fun j hj => absurd hj (Nat.not_lt_zero j)⟩

/-! ## Words and copies -/

theorem lasting_pairsTaken (width i : Nat) : Lasting (PairsTaken width i) :=
  fun _ _ hop hpairs => ⟨hop.outputs.trans hpairs.outputs, fun j hj =>
    ⟨lasting_takesNow _ _ hop (hpairs.words j hj).1,
      lasting_takesNow _ _ hop (hpairs.words j hj).2⟩⟩

theorem writes_pairInputs : Triple lib h (fun _ => True)
    (Writes fun op => PairsTaken width i op ∧ Copies itf 0 op) (pairInputs width i)
    fun _ => Writes fun op => PairsTaken width (i + 1) op ∧ Copies itf 0 op := by
  have hpairs := (lasting_pairsTaken width i).and (enduring_copies itf 0).lasting
  refine (writes_input hpairs (isName_numbered (by decide) i)).bind fun _ => ?_
  have hleft := hpairs.and (lasting_takesNow s!"A{i}" (.vector width))
  refine (writes_input hleft (isName_numbered (by decide) i)).drop ?_
  rintro - op ⟨⟨⟨htaken, hcopies⟩, hleft⟩, hright⟩
  exact ⟨⟨htaken.outputs, Nat.forall_lt_succ_right.mpr ⟨htaken.words, hleft, hright⟩⟩, hcopies⟩

/-- What is placed for a pair is connected to that pair. -/
theorem isCopy_of_placement (hop : op.Written) (hsub : lib.interface sub = .ok itf)
    (hitf : IsMultiplier width itf out) {left right : Width} (hleft : op.TakesNow s!"A{i}" left)
    (hright : op.TakesNow s!"B{i}" right)
    (hplaced : Placement lib sub s!"mult{i}" (wiring i) op op' inst) :
    IsCopy itf i op'.flow.netlist inst := by
  obtain ⟨hinputs, houtputs, hname, -⟩ := hitf
  have hsame : inst.interface = itf :=
    Except.ok.inj ((interface_of_subInterface hplaced.interface).symm.trans hsub)
  have hreads := fun {name id w} (hword : op.TakesNow name w)
      (hreads : op.flow.Reads op'.flow name inst.inputCycle id) =>
    hword.names_of_reads hop.consistent.flow hplaced.sound hplaced.extends_flow
      (hplaced.inputCycle_eq ▸ hreads)
  have hconnects := hplaced.connects
  have hyields := hplaced.yields
  rw [hsame] at hconnects hyields
  constructor
  · exact hplaced.name_eq
  · exact hsame
  · rw [hinputs] at hconnects
    generalize inst.inputs = entries at hconnects
    obtain _ | ⟨hx, _ | ⟨hy, _ | _⟩⟩ := hconnects
    cases hx with
    | constant text bound => simp [wiring] at bound
    | signal x a bound readsX width =>
        cases hy with
        | constant text bound => simp [wiring, List.lookup] at bound
        | signal y b bound' readsY width =>
            obtain rfl : s!"A{i}" = x := by simpa [wiring] using bound
            obtain rfl : s!"B{i}" = y := by simpa [wiring, List.lookup] using bound'
            exact ⟨a, b, hreads hleft readsX, hreads hright readsY, rfl⟩
  · rw [houtputs] at hyields
    generalize inst.outputs = entries at hyields
    obtain _ | ⟨hr, _ | _⟩ := hyields
    cases hr with
    | unbound bound => simp [wiring, hname] at bound
    | signal s bound mem role driver cycle_eq width =>
        obtain hp : productName i = s.name := by simpa [wiring, hname] using bound
        exact ⟨s.id, ⟨s, mem, hp.symm⟩, by rw [hname]⟩

theorem writes_multiply (hsub : lib.interface sub = .ok itf) (hitf : IsMultiplier width itf out)
    (hi : i < count) : Triple lib h (fun _ => True)
      (Writes fun op => PairsTaken width count op ∧ Copies itf i op) (multiply sub i)
      fun _ => Writes fun op => PairsTaken width count op ∧ Copies itf (i + 1) op := by
  rw [multiply_eq]
  apply writes_instantiate
  · simp [wiring]
  · simp only [wiring, List.mem_singleton, forall_eq]
    exact isName_numbered (by decide) i
  · rintro op op' inst hplaced hop hcycle ⟨hpairs, hcopies⟩
    have hkept := fun {name w} (hword : op.TakesNow name w) =>
      hword.mono hop.consistent.flow hplaced.sound hplaced.extends_flow hcycle
    refine ⟨⟨hplaced.outputs.trans hpairs.outputs, fun j hj =>
      ⟨hkept (hpairs.words j hj).1, hkept (hpairs.words j hj).2⟩⟩, ?_, fun j hj => ?_⟩
    · rw [hplaced.instances, Array.size_push, hcopies.size]
    · rcases Nat.lt_succ_iff_lt_or_eq.mp hj with hold | rfl
      · obtain ⟨inst', hinst', hcopy⟩ := hcopies.copy j hold
        exact ⟨inst', hplaced.instances_kept hinst', hcopy.mono hplaced.extends_flow.netlist⟩
      · obtain ⟨hleft, hright⟩ := hpairs.words j hi
        refine ⟨inst, ?_, isCopy_of_placement hop hsub hitf hleft hright hplaced⟩
        rw [hplaced.instances, ← hcopies.size]
        exact Array.getElem?_push_size

/-! ## Products -/

/-- The product of a copy arrives when the copy delivers. -/
theorem IsCopy.cycle_eq (hcopy : IsCopy itf j op.flow.netlist inst) (hop : op.Consistent)
    (hinst : op.instances[j]? = some inst) {p : Signal}
    (hp : op.flow.netlist.find (productName j) = .ok p) : p.cycle = inst.outputCycle := by
  obtain ⟨id, ⟨s, hs, hname⟩, houtputs⟩ := hcopy.output
  obtain ⟨hp, hproduct⟩ := hop.flow.lawful.find_ok.mp hp
  obtain rfl := hop.flow.lawful.id_eq hs
  obtain rfl := hop.flow.lawful.eq_of_name hs hp (hname.trans hproduct.symm)
  obtain ⟨t, ht, -, -, hcycle⟩ := (hop.fits hinst).output (houtputs ▸ List.mem_singleton_self _)
  obtain rfl := Option.some.inj (hs.symm.trans ht)
  exact hcycle

theorem writes_await (hi : i < count) : Triple lib h (fun _ => True)
    (Writes (Awaited itf count i)) (call (.join (productName i)))
    fun _ => Writes (Awaited itf count (i + 1)) := by
  apply writes_join
  intro op t p hop hp hle hproduct hawaited
  refine ⟨hawaited.outputs, hawaited.copies.mono (.refl _) rfl, fun j hj inst hinst => ?_⟩
  rcases Nat.lt_succ_iff_lt_or_eq.mp hj with hold | rfl
  · exact (hawaited.delivered j hold inst hinst).trans hle
  · obtain ⟨inst', hinst', hcopy⟩ := hawaited.copies.copy j hi
    obtain rfl := Option.some.inj (hinst.symm.trans hinst')
    exact (hcopy.cycle_eq hop.consistent hinst hp).symm.trans_le hproduct

theorem Awaited.due (hop : Awaited itf count count op) : op.Due where
  outputs := hop.outputs
  delivered inst hinst := by
    obtain ⟨j, hj⟩ := Array.mem_iff_getElem?.mp hinst
    have hlt := (Array.getElem?_eq_some_iff.mp hj).1
    exact hop.delivered j (hop.copies.size ▸ hlt) inst hj

/-- Copies of a multiplier are connected to the pairs, and the sum is the only output. -/
theorem writes_sumCopies (device : Device) (hsub : lib.interface sub = .ok itf)
    (hitf : IsMultiplier width itf out) (count : Nat) : Triple lib h (fun _ => True)
      (Writes fun op => op.outputs = #[] ∧ op.instances = #[]) (sumCopies width count device sub)
      fun _ => Writes fun op => Copies itf count op ∧ op.Ended := by
  have hpairs : Triple lib h (fun _ => True) (Writes fun op => op.outputs = #[] ∧ op.instances = #[])
      (forEach (pairInputs width) (List.range count))
      fun _ => Writes fun op => PairsTaken width count op ∧ Copies itf 0 op :=
    (triple_range (fun i => Writes fun op => PairsTaken width i op ∧ Copies itf 0 op)
      fun i _ => writes_pairInputs).conseq
      (fun op hop => hop.mono fun op ⟨houtputs, hnone⟩ =>
        ⟨⟨houtputs, fun j hj => absurd hj (Nat.not_lt_zero j)⟩, copies_zero.mpr hnone⟩)
      fun _ _ hop => hop
  refine hpairs.bind fun _ => ?_
  refine (triple_range (fun i => Writes fun op => PairsTaken width count op ∧ Copies itf i op)
    fun i hi => writes_multiply hsub hitf hi).bind fun _ => ?_
  have hawaits : Triple lib h (fun _ => True)
      (Writes fun op => PairsTaken width count op ∧ Copies itf count op)
      (forEach (fun i => call (.join (productName i))) (List.range count))
      fun _ => Writes fun op => Copies itf count op ∧ op.Due :=
    (triple_range (fun i => Writes (Awaited itf count i)) fun i hi => writes_await hi).conseq
      (fun op hop => hop.mono fun op ⟨htaken, hcopies⟩ =>
        ⟨htaken.outputs, hcopies, fun j hj => absurd hj (Nat.not_lt_zero j)⟩)
      fun _ op hop => hop.mono fun op hawaited => ⟨hawaited.copies, hawaited.due⟩
  refine hawaits.bind fun _ => ?_
  have hkept : Enduring fun op => Copies itf count op ∧ op.Due :=
    (enduring_copies itf count).and enduring_due
  exact Rake.writes_build (rake width count) (isName_numbered (by decide)) hkept count
    fun op op' _ hop hconcludes =>
      ⟨hop.1.mono hconcludes.extends_flow hconcludes.instances, hop.2.ended hconcludes⟩

end Kind.SumOfProducts

end Retime

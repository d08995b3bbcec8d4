import Retime.Proofs.Kind.Reuse
import Retime.Proofs.Kind.Work

/-! # The work of sums of products

A sum of products takes all its inputs, places its multipliers in the first cycle, and goes on
to the cycle in which the products arrive. Its own work starts there.
-/

namespace Retime.Kind.SumOfProducts

open Retime.Operator Retime.Dataflow Build

/-! ## Values and copies -/

/-- The words of the first `i` pairs. -/
def pairValues (width i : Nat) : List (String × Width) :=
  (List.range i).flatMap fun j => [(s!"A{j}", .vector width), (s!"B{j}", .vector width)]

def ports (width count : Nat) : List Port :=
  (List.range count).flatMap fun j => [⟨s!"A{j}", .vector width, 0⟩, ⟨s!"B{j}", .vector width, 0⟩]

/-- The first `i` products, which arrive in the cycle `depth`. -/
def products (out : Port) (depth i : Nat) : List Declaration :=
  (List.range i).map fun j => driven j depth out (productName j)

/-- The first `i` copies of the multiplier. -/
def multipliers (depth i : Nat) : List (String × Nat) :=
  (List.range i).map fun j => (s!"mult{j}", depth)

/-- What a multiplier shows. -/
def IsMultiplier (width : Nat) (itf : Interface) (out : Port) : Prop :=
  itf.inputs = Adder.ports width ∧ itf.outputs = [out] ∧ out.name = "R" ∧
    out.width = .vector (2 * width)

def rake (width count : Nat) : Rake where
  width := outputWidth width count
  term := productName
  sum i := s!"sop{i}"

variable {lib : Library} {h : Handle} {S : Timeline → Prop} {E : Fault → Prop} {width count i j : Nat}

theorem succ_values : pairValues width (i + 1) =
    pairValues width i ++ [(s!"A{i}", .vector width)] ++ [(s!"B{i}", .vector width)] := by
  simp [pairValues, List.range_succ]

theorem succ_ports : ports width (i + 1) =
    ports width i ++ [⟨s!"A{i}", .vector width, 0⟩] ++ [⟨s!"B{i}", .vector width, 0⟩] := by
  simp [ports, List.range_succ]

/-- The names of the words. -/
theorem mem_pairNames {name : String} : name ∈ (pairValues width i).map (·.1) ↔
    ∃ j < i, name = s!"A{j}" ∨ name = s!"B{j}" := by
  simp [pairValues, List.map_flatMap]

/-- The words of a pair are taken. -/
theorem triple_pairInputs : Triple lib h E (Progress S (ports width i) [] (pairValues width i) [])
    (pairInputs width i)
    fun _ => Progress S (ports width (i + 1)) [] (pairValues width (i + 1)) [] := by
  rw [succ_values, succ_ports]
  refine Triple.bind (triple_input (plain_numbered (by simp [Dataflow.Plain, toString]) i) ?_) fun _ =>
    triple_input (plain_numbered (by simp [Dataflow.Plain, toString]) i) ?_
  · rw [mem_pairNames]
    rintro ⟨j, hj, hsame | hsame⟩
    · exact Nat.ne_of_gt hj (numbered_injective "A" hsame)
    · simp [← String.toList_inj, toString] at hsame
  · rw [List.map_append, List.mem_append, mem_pairNames]
    rintro (⟨j, hj, hsame | hsame⟩ | hsame)
    · simp [← String.toList_inj, toString] at hsame
    · exact Nat.ne_of_gt hj (numbered_injective "B" hsame)
    · simp [← String.toList_inj, toString] at hsame

/-! ## Placing the multipliers -/

/-- So many multipliers were placed, and the timeline is in `cycle`; the products arrive with
the multipliers' depth. -/
def Placed (period : Float) (pipelined : Bool) (width count : Nat) (itf : Interface) (out : Port)
    (cycle placed : Nat) (op : Operator) : Prop :=
  ∃ decls t, t.Clear period pipelined cycle itf.depth ∧
    decls.map (fun d => (d.name, d.width)) = pairValues width count ∧
    (∀ d ∈ decls, d.cycle = 0) ∧
    Draft (ports width count) (decls ++ products out itf.depth placed)
      (multipliers itf.depth placed) t op

variable {period : Float} {pipelined : Bool} {itf : Interface} {out : Port} {sub : Handle}
  {cycle : Nat}

theorem placed_of_progress
    {op : Operator} (hop : Progress (·.Clear period pipelined 0 itf.depth) (ports width count) []
      (pairValues width count) [] op) :
    Placed period pipelined width count itf out 0 0 op := by
  obtain ⟨start, t, hclear, hnothing, decls, hdraft, hvalues, hcycles, -⟩ := hop
  obtain rfl : start = t := Except.ok.inj hnothing
  refine ⟨decls, start, hclear, hvalues, fun d hd => ?_, by simpa [products, multipliers] using hdraft⟩
  have hle := hcycles d hd
  rw [hclear.cycle_eq] at hle
  exact Nat.le_zero.mp hle

theorem succ_products (out : Port) (depth i : Nat) : products out depth (i + 1) =
    products out depth i ++ [driven i depth out (productName i)] := by
  simp [products, List.range_succ]

theorem succ_multipliers (depth i : Nat) : multipliers depth (i + 1) =
    multipliers depth i ++ [(s!"mult{i}", depth)] := by
  simp [multipliers, List.range_succ]

/-- The connections of copy `i`. -/
def wiring (i : Nat) : Wiring where
  inputs := [("X", .signal s!"A{i}"), ("Y", .signal s!"B{i}")]
  outputs := [("R", productName i)]

theorem multiply_eq (sub : Handle) (i : Nat) :
    multiply sub i = call (.instantiate sub s!"mult{i}" (wiring i)) :=
  rfl

theorem check_wiring (hitf : IsMultiplier width itf out) (i : Nat) : (wiring i).check itf = .ok () := by
  obtain ⟨hinputs, houtputs, hname, -⟩ := hitf
  simp [Wiring.check, Wiring.checkFormals, wiring, hinputs, houtputs, hname, Adder.ports, bind,
    Except.bind]

/-- The words of a pair were declared in the first cycle. -/
theorem words_declared {decls : List Declaration}
    (hvalues : decls.map (fun d => (d.name, d.width)) = pairValues width count)
    (hcycles : ∀ d ∈ decls, d.cycle = 0) (hi : i < count) {formal : Port}
    (hformal : formal ∈ Adder.ports width) :
    ∃ decl ∈ decls, (wiring i).inputs.lookup formal.name = some (.signal decl.name) ∧
      decl.width = formal.width ∧ decl.cycle = 0 := by
  have hdeclared : ∀ name, (name, Width.vector width) ∈ pairValues width count →
      ∃ decl ∈ decls, decl.name = name ∧ decl.width = .vector width ∧ decl.cycle = 0 := by
    intro name hmem
    rw [← hvalues] at hmem
    obtain ⟨decl, hdecl, hsame⟩ := List.mem_map.mp hmem
    obtain ⟨hname, hwidth⟩ := Prod.mk.inj hsame
    exact ⟨decl, hdecl, hname, hwidth, hcycles decl hdecl⟩
  rw [Adder.ports, List.mem_cons, List.mem_singleton] at hformal
  rcases hformal with rfl | rfl
  · obtain ⟨decl, hdecl, hname, hrest⟩ := hdeclared s!"A{i}"
      (List.mem_flatMap.mpr ⟨i, List.mem_range.mpr hi, by simp⟩)
    exact ⟨decl, hdecl, by simp [wiring, hname], hrest⟩
  · obtain ⟨decl, hdecl, hname, hrest⟩ := hdeclared s!"B{i}"
      (List.mem_flatMap.mpr ⟨i, List.mem_range.mpr hi, by simp⟩)
    exact ⟨decl, hdecl, by simp [wiring, hname, List.lookup], hrest⟩

theorem plain_productName (i : Nat) : Dataflow.Plain (productName i) :=
  plain_numbered (by simp [Dataflow.Plain, toString]) i

/-- The name of the next product is free. -/
theorem productName_free {decls : List Declaration} {depth : Nat}
    (hvalues : decls.map (fun d => (d.name, d.width)) = pairValues width count) :
    productName i ∉ (decls ++ products out depth i).map (·.name) := by
  have hnames : decls.map (·.name) = (pairValues width count).map (·.1) := by
    simp [← hvalues]
  rw [List.map_append, List.mem_append, hnames, mem_pairNames]
  rintro (⟨j, -, hsame | hsame⟩ | hsame)
  · simp [productName, ← String.toList_inj, toString] at hsame
  · simp [productName, ← String.toList_inj, toString] at hsame
  · simp only [products, List.map_map, List.mem_map, List.mem_range] at hsame
    obtain ⟨j, hj, hsame⟩ := hsame
    exact Nat.ne_of_lt hj (numbered_injective "P" hsame)

theorem triple_multiply (hsub : lib.interface sub = .ok itf) (hother : sub ≠ h)
    (hitf : IsMultiplier width itf out) (hdepth : itf.depth ≤ maxCycle)
    (hadmits : ∀ t : Timeline, t.period = period → t.pipelined = pipelined → t.Admits out.delay)
    (hi : i < count) :
    Triple lib h E (Placed period pipelined width count itf out 0 i) (multiply sub i)
      fun _ => Placed period pipelined width count itf out 0 (i + 1) := by
  rw [multiply_eq]
  refine triple_call fun op hhandle hop => ?_
  obtain ⟨decls, t, hclear, hvalues, hcycles, hdraft⟩ := hop
  obtain ⟨t', harrive, hclear'⟩ := hclear.arrive (hadmits t hclear.period_eq hclear.pipelined_eq)
  have hseen : op.subInterface lib sub = .ok itf := by
    simp [Operator.subInterface, hhandle, hother, hsub]
  have hname : s!"mult{i}" ∉ (multipliers itf.depth i).map (·.1) := by
    simp only [multipliers, List.map_map, List.mem_map, List.mem_range, not_exists, not_and]
    exact fun j hj hsame => Nat.ne_of_lt hj (numbered_injective "mult" hsame)
  have hinputs : ∀ formal ∈ itf.inputs, ∃ decl ∈ decls ++ products out itf.depth i,
      (wiring i).inputs.lookup formal.name = some (.signal decl.name) ∧
        decl.width.bits = formal.width.bits ∧ decl.cycle ≤ t.cycle := by
    intro formal hformal
    obtain ⟨decl, hdecl, hbound, hwidth, hcycle⟩ := words_declared hvalues hcycles hi (hitf.1 ▸ hformal)
    exact ⟨decl, List.mem_append_left _ hdecl, hbound, by rw [hwidth], by omega⟩
  have hlater : laterCycle t.cycle itf.depth = .ok itf.depth := by
    simp [laterCycle, hclear.cycle_eq, hdepth]
  refine ⟨hdraft.unfinished, (hdraft.wp_instantiate hname hseen (check_wiring hitf i) hinputs
    hitf.2.1 (by simp [wiring, hitf.2.2.1]) (plain_productName i)
    (productName_free hvalues) hlater harrive).mono ?_ fun _ _ hfalse => hfalse.elim⟩
  intro _ op' hop'
  refine ⟨decls, t', hclear', hvalues, hcycles, ?_⟩
  rw [succ_products, succ_multipliers, ← List.append_assoc]
  simpa [multipliers] using hop'

/-! ## Adding the products -/

/-- The timeline goes on to the cycle in which the products arrive. -/
theorem triple_join {placed : Nat} (hi : i < placed) (hle : cycle ≤ itf.depth) :
    Triple lib h E (Placed period pipelined width count itf out cycle placed)
      (call (.join (productName i)))
      fun _ => Placed period pipelined width count itf out itf.depth placed := by
  refine triple_call fun op _ hop => ?_
  obtain ⟨decls, t, hclear, hvalues, hcycles, hdraft⟩ := hop
  have hproduct : driven i itf.depth out (productName i) ∈ decls ++ products out itf.depth placed :=
    List.mem_append_right _ (List.mem_map.mpr ⟨i, List.mem_range.mpr hi, rfl⟩)
  refine ⟨hdraft.unfinished, (hdraft.wp_join hproduct).mono ?_ fun _ _ hfalse => hfalse.elim⟩
  exact fun _ op' hop' => ⟨decls, _, hclear.join hle, hvalues, hcycles, hop'⟩

theorem triple_joins (hcount : 1 ≤ count) :
    Triple lib h E (Placed period pipelined width count itf out 0 count)
      (forEach (fun i => call (.join (productName i))) (List.range count))
      fun _ => Placed period pipelined width count itf out itf.depth count := by
  have hstep : ∀ i < count, Triple lib h E
      (Placed period pipelined width count itf out (if i = 0 then 0 else itf.depth) count)
      (call (.join (productName i)))
      fun _ => Placed period pipelined width count itf out (if i + 1 = 0 then 0 else itf.depth)
        count := by
    intro i hi
    rw [if_neg (Nat.succ_ne_zero i)]
    exact triple_join hi (by split <;> omega)
  have hjoins := triple_range _ hstep
  rwa [if_neg (Nat.ne_of_gt hcount)] at hjoins

/-- All values from which the sum is made. -/
def values (width count : Nat) : List (String × Width) :=
  pairValues width count ++ (List.range count).map fun j => (productName j, .vector (2 * width))

theorem progress_of_placed (hwidth : out.width = .vector (2 * width)) {op : Operator}
    (hop : Placed period pipelined width count itf out itf.depth count op) :
    Progress (·.Clear period pipelined itf.depth itf.depth) (ports width count)
      (multipliers itf.depth count) (values width count) [] op := by
  obtain ⟨decls, t, hclear, hvalues, hcycles, hdraft⟩ := hop
  refine ⟨t, t, hclear, rfl, _, hdraft, ?_, fun d hd => ?_, fun c hc => ?_⟩
  · simp [values, products, hvalues, driven, hwidth]
  · rw [hclear.cycle_eq]
    rcases List.mem_append.mp hd with hpair | hproduct
    · exact (hcycles d hpair).symm ▸ Nat.zero_le _
    · obtain ⟨j, -, rfl⟩ := List.mem_map.mp hproduct
      exact Nat.le_refl _
  · obtain ⟨j, -, rfl⟩ := List.mem_map.mp hc
    exact Nat.le_of_eq hclear.cycle_eq.symm

theorem apt_rake (width count : Nat) : (rake width count).Apt 1 count (values width count) where
  term j hj := by
    rw [values, List.map_append, List.mem_append, List.map_map]
    exact .inr (List.mem_map.mpr ⟨j, List.mem_range.mpr hj, rfl⟩)
  plain j := plain_numbered (by simp [Dataflow.Plain, toString]) j
  injective := numbered_injective "sop"
  fresh j _ := by
    simp [values, pairValues, List.map_flatMap, rake, productName, ← String.toList_inj, toString]
  output := by
    simp [values, pairValues, List.map_flatMap, productName, ← String.toList_inj, toString]
  output_ne j := by simp [rake, ← String.toList_inj, toString]

/-- The sum is made from copies of a multiplier whose products arrive in time. -/
theorem triple_sumCopies (device : Device) (hcount : 1 ≤ count) (hsub : lib.interface sub = .ok itf)
    (hother : sub ≠ h) (hitf : IsMultiplier width itf out) (hdepth : itf.depth ≤ maxCycle)
    (hadmits : ∀ t : Timeline, t.period = period → t.pipelined = pipelined → t.Admits out.delay) :
    let own := (rake width count).work device count
    Triple lib h
      (Timeline.Refuses (·.Clear period pipelined itf.depth itf.depth) own)
      (Progress (·.Clear period pipelined 0 itf.depth) [] [] [] [])
      (sumCopies width count device sub)
      fun _ => Complete (·.Clear period pipelined itf.depth itf.depth) (ports width count)
        (.vector (outputWidth width count)) own := by
  intro own
  refine Triple.bind (triple_range (fun i => Progress (·.Clear period pipelined 0 itf.depth)
    (ports width i) [] (pairValues width i) []) fun i _ => triple_pairInputs) fun _ => ?_
  have hmultiplied : Triple lib h
      (Timeline.Refuses (·.Clear period pipelined itf.depth itf.depth) own)
      (Placed period pipelined width count itf out 0 0)
      (forEach (multiply sub) (List.range count))
      fun _ => Placed period pipelined width count itf out 0 count :=
    triple_range _ fun i hi => triple_multiply hsub hother hitf hdepth hadmits hi
  refine Triple.bind (hmultiplied.conseq (fun _ => placed_of_progress) fun _ _ hop => hop) fun _ => ?_
  refine Triple.bind ((triple_joins hcount).conseq (fun _ hop => hop)
    fun _ _ => progress_of_placed hitf.2.2.2) fun _ => ?_
  exact Rake.triple_build device (apt_rake width count) hcount (List.nil_append own)

end Retime.Kind.SumOfProducts

import Retime.Kind.Builtin
import Retime.Proofs.Kind.Progress

/-! # The work of the built-in kinds

Every built-in kind accrues a list of work that its sizes and the device determine. It declares
fresh names and reads what is there, so it comes to its end if the timeline takes this work.
-/

namespace Retime.Kind

open Retime.Operator Retime.Dataflow Build

/-! ## Rakes -/

namespace Rake

/-- Each term but the first takes one addition. -/
def work (r : Rake) (device : Device) (count : Nat) : List Float :=
  List.replicate (count - 1) (device.adderDelay r.width)

/-- The first `count` terms are there, and the names of the output and of the sums from `i` on
are free. -/
structure Apt (r : Rake) (i count : Nat) (values : List (String × Width)) : Prop where
  term : ∀ j < count, r.term j ∈ values.map (·.1)
  plain : ∀ j, Plain (r.sum j)
  injective : Function.Injective r.sum
  fresh : ∀ j ≥ i, r.sum j ∉ values.map (·.1)
  output : "R" ∉ values.map (·.1)
  output_ne : ∀ j, r.sum j ≠ "R"

variable {lib : Library} {h : Handle} {S : Timeline → Prop} {total done : List Float}
  {ports : List Port} {copies : List (String × Nat)} {values : List (String × Width)}
  {r : Rake} {i count : Nat} {sum : String}

theorem Apt.declare (hr : r.Apt i count values) :
    r.Apt (i + 1) count (values ++ [(r.sum i, .vector r.width)]) where
  term j hj := by simpa using .inl (by simpa using hr.term j hj)
  plain := hr.plain
  injective := hr.injective
  fresh j hj := by
    have hne : r.sum j ≠ r.sum i := fun hsame => by
      have := hr.injective hsame
      omega
    have hold := hr.fresh j (by omega)
    simp only [List.map_append, List.mem_append, not_or]
    exact ⟨hold, by simpa using hne⟩
  output := by
    simp only [List.map_append, List.mem_append, not_or]
    exact ⟨hr.output, by simpa using (hr.output_ne i).symm⟩
  output_ne := hr.output_ne

/-- Adding the terms from `i` on. -/
theorem triple_addTerms (device : Device) (hr : r.Apt i (i + count) values)
    (hsum : sum ∈ values.map (·.1))
    (hwork : done ++ List.replicate count (device.adderDelay r.width) = total) :
    Triple lib h (Timeline.Refuses S total) (Progress S ports copies values done)
      (r.addTerms device sum i count) fun last op => ∃ values',
        (last ∈ values'.map (·.1) ∧ "R" ∉ values'.map (·.1)) ∧
          Progress S ports copies values' total op := by
  induction count generalizing sum i values done with
  | zero =>
      obtain rfl : done = total := by simpa using hwork
      exact (triple_pure sum).conseq (fun op hop => ⟨values, ⟨hsum, hr.output⟩, hop⟩)
        fun _ _ hop => hop
  | succ count ih =>
      refine (triple_accrue hwork).bind fun _ => ?_
      refine (triple_consume hsum).bind fun a => ?_
      refine (triple_consume (hr.term i (by omega))).bind fun t => ?_
      refine (triple_declare (hr.plain i) (hr.fresh i (Nat.le_refl i)) _ _).bind fun _ => ?_
      have hnext : r.Apt (i + 1) (i + 1 + count) (values ++ [(r.sum i, .vector r.width)]) := by
        rw [Nat.add_right_comm]
        exact hr.declare
      exact ih hnext (by simp) (by simpa [List.replicate_succ] using hwork)

theorem triple_build (device : Device) (hr : r.Apt 1 count values) (hcount : 1 ≤ count)
    (hwork : done ++ r.work device count = total) :
    Triple lib h (Timeline.Refuses S total) (Progress S ports copies values done)
      (r.build device count) fun _ => Complete S ports (.vector r.width) total := by
  have hterms : r.Apt 1 (1 + (count - 1)) values := by rwa [Nat.add_sub_cancel' hcount]
  refine (triple_addTerms device hterms (hr.term 0 hcount) hwork).bind fun last => ?_
  refine triple_exists fun values' => triple_and fun hlast => ?_
  exact (triple_consume hlast.1).bind fun total' => triple_output hlast.2 _ _

end Rake

/-! ## Numbers -/

theorem plain_numbered {stem : String} (hstem : Plain stem) (i : Nat) : Plain (stem ++ i.repr) := by
  unfold Plain
  rw [String.toList_append, List.mem_append, not_or]
  exact ⟨hstem, notMem_repr rfl i⟩

theorem numbered_injective (stem : String) : Function.Injective fun i : Nat => stem ++ i.repr :=
  fun _ _ h => Nat.repr_injective ((String.append_right_inj stem).mp h)

/-- The place of a number among those below another one. -/
theorem range_split {i n : Nat} (h : i < n) : ∃ rest, List.range i ++ i :: rest = List.range n := by
  obtain ⟨k, rfl⟩ := Nat.exists_eq_add_of_lt h
  refine ⟨(List.range k).map (i + 1 + ·), ?_⟩
  rw [Nat.add_right_comm, List.range_add, List.range_succ, List.append_assoc,
    List.singleton_append]

/-! ## Adders -/

namespace Adder

/-- What segment `i` takes, with the carry. -/
def segmentWork (device : Device) (width size i : Nat) : Float :=
  device.adderDelay ((Segment.nth width size i).size + 1)

def work (width : Nat) (device : Device) : List Float :=
  let size := segmentSize device width
  if width ≤ size then [device.adderDelay width]
  else (List.range (Segment.count width size)).map (segmentWork device width size)

/-- The values that are there before segment `i` is added. -/
def values (width size i : Nat) : List (String × Width) :=
  ("X", .vector width) :: ("Y", .vector width) :: (List.range i).map fun j =>
    (partName j, .vector ((Segment.nth width size j).size + 1))

def ports (width : Nat) : List Port :=
  [⟨"X", .vector width, 0⟩, ⟨"Y", .vector width, 0⟩]

variable {lib : Library} {h : Handle} {S : Timeline → Prop} {total : List Float} {device : Device}
  {width size i : Nat}

theorem partName_mem {j : Nat} (hj : j < i) : partName j ∈ (values width size i).map (·.1) := by
  simp only [values, List.map_cons, List.map_map, List.mem_cons, List.mem_map]
  exact .inr (.inr ⟨j, List.mem_range.mpr hj, rfl⟩)

theorem partName_free : partName i ∉ (values width size i).map (·.1) := by
  simp only [values, List.map_cons, List.map_map, List.mem_cons, List.mem_map, not_or, not_exists,
    not_and, List.mem_range]
  refine ⟨?_, ?_, fun j hj hsame => ?_⟩
  · simp [partName, ← String.toList_inj, toString]
  · simp [partName, ← String.toList_inj, toString]
  · exact Nat.ne_of_lt hj (numbered_injective "s" hsame)

theorem output_free : "R" ∉ (values width size i).map (·.1) := by
  simp [values, partName, ← String.toList_inj, toString]

theorem triple_inputs (size : Nat) :
    Triple lib h (Timeline.Refuses S total) (Progress S [] [] [] []) (inputs width)
      fun _ => Progress S (ports width) [] (values width size 0) [] :=
  Triple.bind (triple_input (by simp [Plain]) (by simp)) fun _ =>
    triple_input (by simp [Plain]) (by simp)

theorem triple_whole :
    Triple lib h (Timeline.Refuses S [device.adderDelay width])
      (Progress S (ports width) [] (values width size 0) []) (whole device width)
      fun _ => Complete S (ports width) (.vector width) [device.adderDelay width] := by
  refine Triple.bind (triple_accrue (List.nil_append _)) fun _ => ?_
  refine Triple.bind (triple_consume (by simp [values])) fun x => ?_
  exact Triple.bind (triple_consume (by simp [values])) fun y => triple_output output_free _ _

theorem triple_carryInto {done : List Float} :
    Triple lib h (Timeline.Refuses S total) (Progress S (ports width) [] (values width size i) done)
      (carryInto size i) fun _ => Progress S (ports width) [] (values width size i) done := by
  cases i with
  | zero => exact triple_pure _
  | succ i =>
      exact Triple.bind (triple_consume (partName_mem (Nat.lt_succ_self i))) fun _ => triple_pure _

theorem triple_addSegment {done rest : List Float}
    (htotal : done ++ segmentWork device width size i :: rest = total) :
    Triple lib h (Timeline.Refuses S total) (Progress S (ports width) [] (values width size i) done)
      (addSegment device width size i) fun _ => Progress S (ports width) []
        (values width size (i + 1)) (done ++ [segmentWork device width size i]) := by
  have hvalues : values width size (i + 1) = values width size i ++
      [(partName i, .vector ((Segment.nth width size i).size + 1))] := by
    simp [values, List.range_succ]
  rw [hvalues]
  refine Triple.bind (triple_accrue htotal) fun _ => ?_
  refine Triple.bind (triple_consume (by simp [values])) fun x => ?_
  refine Triple.bind (triple_consume (by simp [values])) fun y => ?_
  refine Triple.bind triple_carryInto fun carry => ?_
  exact triple_declare (plain_numbered (by simp [Plain, toString]) i) partName_free _ _

theorem triple_segmented :
    let work := (List.range (Segment.count width size)).map (segmentWork device width size)
    Triple lib h (Timeline.Refuses S work) (Progress S (ports width) [] (values width size 0) [])
      (segmented device width size) fun _ => Complete S (ports width) (.vector width) work := by
  intro work
  have hsegment : ∀ i < Segment.count width size, Triple lib h (Timeline.Refuses S work)
      (Progress S (ports width) [] (values width size i)
        ((List.range i).map (segmentWork device width size)))
      (addSegment device width size i) fun _ =>
        Progress S (ports width) [] (values width size (i + 1))
          ((List.range (i + 1)).map (segmentWork device width size)) := by
    intro i hi
    obtain ⟨rest, hrest⟩ := range_split hi
    have htotal : (List.range i).map (segmentWork device width size) ++
        segmentWork device width size i :: rest.map (segmentWork device width size) = work := by
      rw [← List.map_cons, ← List.map_append, hrest]
    rw [List.range_succ, List.map_append]
    exact triple_addSegment htotal
  refine Triple.bind (triple_range _ hsegment) fun _ => ?_
  refine Triple.bind (triple_forEach_keep fun i hi => ?_) fun parts => triple_output output_free _ _
  have hlt : i < Segment.count width size := List.mem_range.mp (List.mem_reverse.mp hi)
  exact Triple.bind (triple_consume (partName_mem hlt)) fun part => triple_pure _

end Adder

theorem does_adder (width : Nat) (device : Device) :
    ((adder width).design device).Does (Adder.ports width) (.vector width)
      (Adder.work width device) := by
  refine ⟨Adder.build width device, rfl, fun lib h S => ?_⟩
  refine Triple.bind (Adder.triple_inputs (Adder.segmentSize device width)) fun _ => ?_
  unfold Adder.work
  dsimp only
  split
  · exact Adder.triple_whole
  · exact Adder.triple_segmented

/-! ## Sums of words -/

namespace MultiAdder

def values (width i : Nat) : List (String × Width) :=
  (List.range i).map fun j => (s!"X{j}", .vector width)

def ports (width count : Nat) : List Port :=
  (List.range count).map fun i => ⟨s!"X{i}", .vector width, 0⟩

def rake (width : Nat) : Rake where
  width
  term i := s!"X{i}"
  sum i := s!"acc{i}"

theorem apt_rake (width count : Nat) : (rake width).Apt 1 count (values width count) where
  term j hj := by
    simp only [values, List.map_map, List.mem_map, List.mem_range]
    exact ⟨j, hj, rfl⟩
  plain j := plain_numbered (by simp [Plain, toString]) j
  injective := numbered_injective "acc"
  fresh j _ := by simp [values, rake, ← String.toList_inj, toString]
  output := by simp [values, ← String.toList_inj, toString]
  output_ne j := by simp [rake, ← String.toList_inj, toString]

end MultiAdder

theorem does_multiAdder (width : Nat) {count : Nat} (hcount : 1 ≤ count) (device : Device) :
    ((multiAdder width count).design device).Does (MultiAdder.ports width count) (.vector width)
      ((MultiAdder.rake width).work device count) := by
  dsimp only [multiAdder]
  refine ⟨_, rfl, fun lib h S => ?_⟩
  refine Triple.bind (triple_range (fun i => Progress S (MultiAdder.ports width i) []
    (MultiAdder.values width i) []) fun i _ => ?_) fun _ => ?_
  · have hports : MultiAdder.ports width (i + 1) =
        MultiAdder.ports width i ++ [⟨s!"X{i}", .vector width, 0⟩] := by
      simp [MultiAdder.ports, List.range_succ]
    have hvalues : MultiAdder.values width (i + 1) =
        MultiAdder.values width i ++ [(s!"X{i}", .vector width)] := by
      simp [MultiAdder.values, List.range_succ]
    rw [hports, hvalues]
    refine triple_input (plain_numbered (by simp [Plain, toString]) i) ?_
    simp only [MultiAdder.values, List.map_map, List.mem_map, List.mem_range, not_exists, not_and]
    exact fun j hj hsame => Nat.ne_of_lt hj (numbered_injective "X" hsame)
  · exact Rake.triple_build device (MultiAdder.apt_rake width count) hcount (List.nil_append _)

/-! ## Multipliers -/

namespace Multiplier

/-- The number of partial products. -/
def parts (width : Nat) (device : Device) : Nat :=
  Segment.count width (segmentSize device)

def rake (width : Nat) (device : Device) : Rake where
  width := 2 * width
  term := partName
  sum i := s!"sum{i}"
  shift i := some (i * segmentSize device)

def work (width : Nat) (device : Device) : List Float :=
  (device.wireDelay (parts width device) + device.lutDelay) ::
    (rake width device).work device (parts width device)

/-- The values that are there before partial product `i` is declared. -/
def values (width size i : Nat) : List (String × Width) :=
  ("X", .vector width) :: ("Y", .vector width) :: (List.range i).map fun j =>
    (partName j, .vector (width + (Segment.nth width size j).size))

theorem apt_rake (width : Nat) (device : Device) : (rake width device).Apt 1 (parts width device)
    (values width (segmentSize device) (parts width device)) where
  term j hj := by
    simp only [values, List.map_cons, List.map_map, List.mem_cons, List.mem_map]
    exact .inr (.inr ⟨j, List.mem_range.mpr hj, rfl⟩)
  plain j := plain_numbered (by simp [Plain, toString]) j
  injective := numbered_injective "sum"
  fresh j _ := by simp [values, rake, partName, ← String.toList_inj, toString]
  output := by simp [values, partName, ← String.toList_inj, toString]
  output_ne j := by simp [rake, ← String.toList_inj, toString]

theorem triple_multiplySegment {lib : Library} {h : Handle} {S : Timeline → Prop}
    {total done : List Float} {ports : List Port} {width size i : Nat} (x y : String) :
    Triple lib h (Timeline.Refuses S total) (Progress S ports [] (values width size i) done)
      (multiplySegment width size x y i)
      fun _ => Progress S ports [] (values width size (i + 1)) done := by
  have hvalues : values width size (i + 1) = values width size i ++
      [(partName i, .vector (width + (Segment.nth width size i).size))] := by
    simp [values, List.range_succ]
  rw [hvalues]
  refine triple_declare (plain_numbered (by simp [Plain, toString]) i) ?_ _ _
  simp only [values, List.map_cons, List.map_map, List.mem_cons, List.mem_map, not_or, not_exists,
    not_and, List.mem_range]
  refine ⟨?_, ?_, fun j hj hsame => ?_⟩
  · simp [← String.toList_inj, toString]
  · simp [← String.toList_inj, toString]
  · exact Nat.ne_of_lt hj (numbered_injective "pp" hsame)

end Multiplier

theorem does_multiplier {width : Nat} {device : Device}
    (hparts : 1 ≤ Multiplier.parts width device) :
    ((multiplier width).design device).Does (Adder.ports width) (.vector (2 * width))
      (Multiplier.work width device) := by
  refine ⟨Multiplier.build width device, rfl, fun lib h S => ?_⟩
  refine Triple.bind (triple_input (by simp [Plain]) (by simp)) fun _ => ?_
  refine Triple.bind (triple_input (by simp [Plain]) (by simp)) fun _ => ?_
  refine Triple.bind (triple_accrue (List.nil_append _)) fun _ => ?_
  refine Triple.bind (triple_consume (by simp)) fun x => Triple.bind (triple_consume (by simp)) fun y => ?_
  refine Triple.bind (triple_range (fun i => Progress S (Adder.ports width) []
    (Multiplier.values width (Multiplier.segmentSize device) i) _)
    fun i _ => Multiplier.triple_multiplySegment x y) fun _ => ?_
  exact Rake.triple_build device (Multiplier.apt_rake width device) hparts rfl

/-! ## Negation -/

theorem does_floatNegation (exponent fraction : Nat) (device : Device) :
    ((floatNegation exponent fraction).design device).Does
      [⟨"X", .float exponent fraction, 0⟩] (.float exponent fraction) [device.lutDelay] := by
  dsimp only [floatNegation]
  refine ⟨_, rfl, fun lib h S => ?_⟩
  refine Triple.bind (triple_input (by simp [Plain]) (by simp)) fun _ => ?_
  refine Triple.bind (triple_accrue (List.nil_append _)) fun _ => ?_
  have hvalue : ("X", Width.float exponent fraction) ∈ [("X", Width.float exponent fraction)] :=
    List.mem_singleton_self _
  refine Triple.bind (triple_consumeField hvalue rfl) fun exc => ?_
  refine Triple.bind (triple_consumeField hvalue rfl) fun sign => ?_
  refine Triple.bind (triple_consumeField hvalue rfl) fun exp => ?_
  refine Triple.bind (triple_consumeField hvalue rfl) fun frac => ?_
  exact triple_output (by simp) _ _

end Retime.Kind

import Retime.Kind.Builtin
import Retime.Proofs.Operator.Counted

/-! # Countable designs

A design is countable if no call in it asks for a cycle after the last one. Built-in kinds name
no cycle at all: they let work accrue and join the signals that they wait for.
-/

namespace Retime

/-- All calls of the design, and of those in it, ask for cycles that can be counted. -/
def Design.Countable : Design → Prop
  | .done => True
  | .call c next => c.Countable ∧ ∀ answer, (next answer).Countable
  | .generate _ body next => body.Countable ∧ ∀ h, (next h).Countable
  | .lookup _ next => ∀ h, (next h).Countable

/-! ## Designs piece by piece -/

namespace Build

variable {α β : Type}

/-- A piece after which a design is countable if what comes next is. -/
def Countable (m : Build α) : Prop :=
  ∀ next : α → Design, (∀ a, (next a).Countable) → (m next).Countable

theorem Countable.design {m : Build Unit} (hm : m.Countable) : m.design.Countable :=
  hm _ fun _ => trivial

theorem countable_pure (a : α) : Countable (pure a) :=
  fun _ hnext => hnext a

theorem Countable.bind {m : Build α} {f : α → Build β} (hm : m.Countable)
    (hf : ∀ a, (f a).Countable) : Countable (m >>= f) :=
  fun next hnext => hm _ fun a => hf a next hnext

theorem countable_call {c : Call} (hc : c.Countable) : Countable (call c) :=
  fun _ hnext => ⟨hc, fun _ => hnext ()⟩

theorem countable_ask {c : Call} (hc : c.Countable) : Countable (ask c) :=
  fun _ hnext => ⟨hc, fun answer => hnext (answer.getD "")⟩

theorem countable_generate {kind : Kind} {device : Device}
    (hkind : (kind.design device).Countable) : Countable (generate kind device) :=
  fun _ hnext => ⟨hkind, hnext⟩

theorem countable_forEach {f : α → Build β} {items : List α} (hf : ∀ a, (f a).Countable) :
    Countable (forEach f items) := by
  induction items with
  | nil => exact countable_pure []
  | cons a items ih => exact (hf a).bind fun _ => ih.bind fun _ => countable_pure _

end Build

/-! ## The built-in kinds -/

namespace Kind

open Build

theorem Rake.countable_addTerms (r : Rake) (device : Device) (sum : String) (i count : Nat) :
    Build.Countable (r.addTerms device sum i count) := by
  induction count generalizing sum i with
  | zero => exact countable_pure sum
  | succ count ih =>
      refine Countable.bind (countable_call trivial) fun _ => ?_
      refine Countable.bind (countable_ask trivial) fun a => ?_
      refine Countable.bind (countable_ask trivial) fun t => ?_
      exact Countable.bind (countable_call trivial) fun _ => ih (r.sum i) (i + 1)

theorem Rake.countable_build (r : Rake) (device : Device) (count : Nat) :
    Build.Countable (r.build device count) := by
  refine Countable.bind (r.countable_addTerms device _ _ _) fun sum => ?_
  exact Countable.bind (countable_ask trivial) fun _ => countable_call trivial

theorem countable_pair (width : Nat) (x y : String) :
    Build.Countable (do input x width; input y width) :=
  Countable.bind (countable_call trivial) fun _ => countable_call trivial

namespace Adder

variable (device : Device) (width size : Nat)

theorem countable_carryInto (i : Nat) : Build.Countable (carryInto size i) := by
  cases i with
  | zero => exact countable_pure _
  | succ i => exact Countable.bind (countable_ask trivial) fun _ => countable_pure _

theorem countable_addSegment (i : Nat) : Build.Countable (addSegment device width size i) := by
  refine Countable.bind (countable_call trivial) fun _ => ?_
  refine Countable.bind (countable_ask trivial) fun x => ?_
  refine Countable.bind (countable_ask trivial) fun y => ?_
  exact (countable_carryInto size i).bind fun _ => countable_call trivial

theorem countable_whole : Build.Countable (whole device width) := by
  refine Countable.bind (countable_call trivial) fun _ => ?_
  refine Countable.bind (countable_ask trivial) fun x => ?_
  exact Countable.bind (countable_ask trivial) fun _ => countable_call trivial

theorem countable_segmented : Build.Countable (segmented device width size) := by
  have hsum : ∀ i, Build.Countable (sumOf width size i) := fun i =>
    Countable.bind (countable_ask trivial) fun _ => countable_pure _
  refine Countable.bind (countable_forEach (countable_addSegment device width size)) fun _ => ?_
  exact (countable_forEach hsum).bind fun _ => countable_call trivial

theorem countable_build : Build.Countable (build width device) := by
  refine Countable.bind (countable_pair width "X" "Y") fun _ => ?_
  show Build.Countable (if _ then _ else _)
  split
  · exact countable_whole device width
  · exact countable_segmented device width _

end Adder

theorem countable_multiAdder (width count : Nat) (device : Device) :
    ((multiAdder width count).design device).Countable := by
  simp only [multiAdder]
  apply Countable.design
  refine Countable.bind (countable_forEach fun _ => countable_call trivial) fun _ => ?_
  exact Rake.countable_build _ device count

theorem Multiplier.countable_build (width : Nat) (device : Device) :
    Build.Countable (Multiplier.build width device) := by
  refine Countable.bind (countable_call trivial) fun _ => ?_
  refine Countable.bind (countable_call trivial) fun _ => ?_
  refine Countable.bind (countable_call trivial) fun _ => ?_
  refine Countable.bind (countable_ask trivial) fun x => ?_
  refine Countable.bind (countable_ask trivial) fun y => ?_
  refine Countable.bind (countable_forEach fun _ => countable_call trivial) fun _ => ?_
  exact Rake.countable_build _ device _

theorem SumOfProducts.countable_build (width count : Nat) (device : Device) :
    Build.Countable (SumOfProducts.build width count device) := by
  refine Countable.bind (countable_generate (Multiplier.countable_build width device).design)
    fun multiplier => ?_
  refine Countable.bind (countable_forEach fun i => countable_pair width _ _) fun _ => ?_
  refine Countable.bind (countable_forEach fun _ => countable_call trivial) fun _ => ?_
  refine Countable.bind (countable_forEach fun _ => countable_call trivial) fun _ => ?_
  exact Rake.countable_build _ device count

theorem countable_floatNegation (exponent fraction : Nat) (device : Device) :
    ((floatNegation exponent fraction).design device).Countable := by
  simp only [floatNegation]
  apply Countable.design
  refine Countable.bind (countable_call trivial) fun _ => ?_
  refine Countable.bind (countable_call trivial) fun _ => ?_
  refine Countable.bind (countable_ask trivial) fun exc => ?_
  refine Countable.bind (countable_ask trivial) fun sign => ?_
  refine Countable.bind (countable_ask trivial) fun exp => ?_
  exact Countable.bind (countable_ask trivial) fun _ => countable_call trivial

end Kind

/-- Whatever its sizes and whatever the device, a built-in kind is countable. -/
theorem Family.countable_design (f : Family) (sizes : Sizes) (device : Device) :
    ((f.kind sizes).design device).Countable := by
  cases f with
  | adder => exact (Kind.Adder.countable_build device sizes.width).design
  | multiAdder => exact Kind.countable_multiAdder sizes.width sizes.count device
  | multiplier => exact (Kind.Multiplier.countable_build sizes.width device).design
  | sumOfProducts =>
      exact (Kind.SumOfProducts.countable_build sizes.width sizes.count device).design
  | floatNegation => exact Kind.countable_floatNegation sizes.exponent sizes.fraction device

end Retime

import Retime.Proofs.Kind.Addition
import Retime.Proofs.Kind.Raking

/-! # Multipliers multiply

A partial product is the product of the first word with a part of the second one. The rake adds
each at the place of its part, so its sums are the products of the first word with more and more
bits of the second one, and none exceeds the whole product.
-/

namespace Retime

namespace Kind.Multiplier

open Verilog Operator Dataflow Build

/-- What is assigned to the partial product with a segment. -/
def product (g : Segment) (x y : String) : Expr :=
  .mul (.ident x) (.slice y g.high g.low)

/-- The width of partial product `i`. -/
def partWidth (width size i : Nat) : Nat :=
  width + (Segment.nth width size i).size

/-- The product of the first word with a part of the second one. -/
def productOf (width size i : Nat) (env : Environment) : Nat :=
  inputWord "X" width env * (Segment.nth width size i).part (inputWord "Y" width env)

/-- What partial products are made of. -/
structure Factors (width : Nat) (x y : String) (d : Dataflow) (nets : Environment → List Net) :
    Prop where
  left : Identifies "X" width (inputWord "X" width) x d nets
  right : Identifies "Y" width (inputWord "Y" width) y d nets

/-- Partial product `i` was declared. -/
def Multiplied (width size : Nat) (x y : String) (i : Nat) : Facts := fun d nets =>
  d.Declares (partName i) (partWidth width size i) (product (Segment.nth width size i) x y) ∧
    Valued nets (partName i) (partWidth width size i) (productOf width size i)

/-- The first `n` partial products were declared. -/
structure MultipliedTo (width size : Nat) (x y : String) (n : Nat) (d : Dataflow)
    (nets : Environment → List Net) : Prop where
  factors : Factors width x y d nets
  parts : ∀ i < n, Multiplied width size x y i d nets

variable {lib : Library} {h : Handle} {device : Device} {width size i n : Nat} {x y : String}
  {d : Dataflow} {nets : Environment → List Net} {env : Environment}

theorem stable_factors (width : Nat) (x y : String) : Facts.Stable (Factors width x y) := by
  intro d d' nets nets' hd hd' hext hnets h
  constructor
  · exact stable_identifies _ _ _ _ hd hd' hext hnets h.left
  · exact stable_identifies _ _ _ _ hd hd' hext hnets h.right

theorem stable_multipliedTo (width size : Nat) (x y : String) (n : Nat) :
    Facts.Stable (MultipliedTo width size x y n) := by
  intro d d' nets nets' hd hd' hext hnets h
  constructor
  · exact stable_factors _ _ _ hd hd' hext hnets h.factors
  · intro i hi
    obtain ⟨hdeclares, hvalued⟩ := h.parts i hi
    exact ⟨hdeclares.mono hd hd' hext, stable_valued _ _ _ hd hd' hext hnets hvalued⟩

/-! ## Values -/

theorem inputWord_lt (name : String) (width : Nat) (env : Environment) :
    inputWord name width env < 2 ^ width :=
  Nat.mod_lt _ (Nat.two_pow_pos width)

/-- No bit of a partial product is lost. -/
theorem productOf_lt (width size i : Nat) (env : Environment) :
    productOf width size i env < 2 ^ partWidth width size i := by
  rw [partWidth, Nat.pow_add]
  exact Nat.mul_lt_mul'' (inputWord_lt "X" width env) (Segment.part_lt _ _)

/-- The sum of the first partial products is the product with the first bits. -/
theorem sumTo_eq (hn : n ≤ parts width device) (env : Environment) :
    (rake width device).sumTo (productOf width (segmentSize device)) n env =
      inputWord "X" width env *
        (inputWord "Y" width env % 2 ^ min (n * segmentSize device) width) := by
  have hsize : 0 < segmentSize device := Nat.le_max_right _ 1
  rw [← Segment.sum_part_take hsize _ hn, Finset.mul_sum]
  exact Finset.sum_congr rfl fun j _ => Nat.mul_assoc _ _ _

/-- The sum of all partial products is the product. -/
theorem sumTo_parts (width : Nat) (device : Device) (env : Environment) :
    (rake width device).sumTo (productOf width (segmentSize device)) (parts width device) env =
      inputWord "X" width env * inputWord "Y" width env := by
  have hcovers : width ≤ parts width device * segmentSize device :=
    Segment.width_le (Nat.le_max_right _ 1)
  rw [sumTo_eq (Nat.le_refl _), Nat.min_eq_right hcovers,
    Nat.mod_eq_of_lt (inputWord_lt "Y" width env)]

theorem product_lt (width : Nat) (env : Environment) :
    inputWord "X" width env * inputWord "Y" width env < 2 ^ (2 * width) := by
  rw [Nat.two_mul, Nat.pow_add]
  exact Nat.mul_lt_mul'' (inputWord_lt "X" width env) (inputWord_lt "Y" width env)

/-! ## Partial products -/

section Segment

variable (hsize : 0 < size) (hi : i < Segment.count width size)
include hsize hi

theorem Factors.evaluates (h : Factors width x y d nets) :
    Evaluates nets (product (Segment.nth width size i) x y)
      (max width (Segment.nth width size i).size) (productOf width size i) :=
  h.left.valued.ident.mul (Segment.evaluates_slice hsize hi h.right.valued)

/-- Declaring partial product `i` after those before it. -/
theorem knows_multiplySegment :
    Triple lib h (fun _ => True) (Knows (MultipliedTo width size x y i))
      (multiplySegment width size x y i) fun _ => Knows (MultipliedTo width size x y (i + 1)) := by
  apply knows_of (P := Legible .sum (product (Segment.nth width size i) x y))
  · intro d nets hknown
    have hx := (Legible.ident hknown.factors.left.named).factor
    exact (hx.mul (.slice hknown.factors.right.named _ _)).term
  intro hlegible
  apply (@knows_declare _ lib h (partName i) (partWidth width size i) _ _ _
    (stable_multipliedTo width size x y i) (fun d nets hknown => hknown.factors.evaluates hsize hi)
    hlegible (isName_numbered (by decide) i)).weaken
  rintro - d nets ⟨hbefore, hvalued, hdeclares⟩
  have hproduct := hvalued.of_lt (productOf_lt width size i)
  exact ⟨hbefore.factors,
    Nat.forall_lt_succ_right.mpr ⟨hbefore.parts, hdeclares, hproduct⟩⟩

end Segment

/-! ## Sums -/

/-- The partial products can be added. -/
theorem adds_rake (width : Nat) (device : Device) (x y : String) :
    (rake width device).Adds (MultipliedTo width (segmentSize device) x y (parts width device))
      (partWidth width (segmentSize device)) (productOf width (segmentSize device))
      (parts width device) where
  stable := stable_multipliedTo _ _ _ _ _
  valued d nets hknown i hi := (hknown.parts i hi).2
  first v := by simp [Rake.weighed, rake]
  named i := isName_numbered (by decide) i
  fits env := by
    rw [sumTo_parts]
    exact product_lt width env

/-- What a multiplier leaves. -/
def MultipliesParts (width : Nat) (device : Device) : Facts := fun d nets => ∃ x y,
  (rake width device).Gives (MultipliedTo width (segmentSize device) x y (parts width device))
    (partWidth width (segmentSize device)) (productOf width (segmentSize device))
    (parts width device) d nets

theorem knows_build (hparts : 1 ≤ parts width device) :
    Triple lib h (fun _ => True) (Knows fun _ _ => True) (build width device)
      fun _ => Knows (MultipliesParts width device) := by
  have hsize : 0 < segmentSize device := Nat.le_max_right _ 1
  refine (knows_input stable_true (by decide)).bind fun _ => ?_
  have hleft := stable_true.and (stable_valued "X" width (inputWord "X" width))
  refine (knows_input hleft (by decide)).bind fun _ => ?_
  have hboth := hleft.and (stable_valued "Y" width (inputWord "Y" width))
  refine (knows_accrue _).bind fun _ => ?_
  refine (knows_consume hboth fun d nets hknown => hknown.1.2).bind fun x => ?_
  have hx := hboth.and (stable_identifies "X" width (inputWord "X" width) x)
  refine (knows_consume hx fun d nets hknown => hknown.1.2).bind fun y => ?_
  have hsegments : Triple lib h (fun _ => True) (Knows (MultipliedTo width (segmentSize device) x y 0))
      (forEach (multiplySegment width (segmentSize device) x y) (List.range (parts width device)))
      fun _ => Knows (MultipliedTo width (segmentSize device) x y (parts width device)) :=
    triple_range (fun i => Knows (MultipliedTo width (segmentSize device) x y i))
      fun i hi => knows_multiplySegment hsize hi
  refine Triple.bind (hsegments.conseq (fun op hop => hop.mono ?_) fun _ _ hop => hop) fun _ => ?_
  · rintro d nets ⟨⟨-, hx⟩, hy⟩
    exact ⟨⟨hx, hy⟩, fun i hi => absurd hi (Nat.not_lt_zero i)⟩
  apply (Rake.knows_build (adds_rake width device x y) hparts).conseq
  · exact fun op hop => hop.mono fun d nets hknown =>
      ⟨hknown, fun i hone hlt => absurd hone (Nat.not_le_of_lt hlt)⟩
  · exact fun _ op hop => hop.mono fun d nets hknown => ⟨x, y, hknown⟩

/-! ## Whole multipliers -/

/-- How an operator multiplies by segments. -/
structure Split (width : Nat) (device : Device) (d : Dataflow) (nets : Environment → List Net) :
    Prop where
  /-- The segments of the second word have no gap and no overlap, and cover it. -/
  tiled : (Segment.ofWidth width (segmentSize device)).flatMap Segment.places = List.range width
  nonempty : ∀ g ∈ Segment.ofWidth width (segmentSize device), 0 < g.size
  /-- Every partial product fits its signal. -/
  segment : ∃ x y, Factors width x y d nets ∧ ∀ i < parts width device,
    let g := Segment.nth width (segmentSize device) i
    d.Declares (partName i) (width + g.size) (product g x y) ∧
      Evaluates nets (product g x y) (max width g.size) (productOf width (segmentSize device) i) ∧
      (∀ env, productOf width (segmentSize device) i env < 2 ^ (width + g.size)) ∧
      Valued nets (partName i) (width + g.size) (productOf width (segmentSize device) i)
  /-- Every sum of shifted partial products fits its signal. -/
  sum : ∀ i, 1 ≤ i → i < parts width device → ∃ a b,
    let total := (rake width device).sumTo (productOf width (segmentSize device))
    let lastWidth := (rake width device).lastWidth (partWidth width (segmentSize device)) i
    let e := Expr.add (.ident a) (.shiftLeft (.ident b) (i * segmentSize device))
    Identifies ((rake width device).last i) lastWidth (total i) a d nets ∧
      Identifies (partName i) (partWidth width (segmentSize device) i)
        (productOf width (segmentSize device) i) b d nets ∧
      d.Declares ((rake width device).sum i) (2 * width) e ∧
      Evaluates nets e (max lastWidth (partWidth width (segmentSize device) i)) (total (i + 1)) ∧
      (∀ env, total (i + 1) env < 2 ^ (2 * width)) ∧
      Valued nets ((rake width device).sum i) (2 * width) (total (i + 1))
  /-- The result is the last sum, or the only partial product. -/
  result : ∃ a, d.Declares "R" (2 * width) (.ident a) ∧
    d.StandsFor a ((rake width device).last (parts width device))

theorem MultipliesParts.split (h : MultipliesParts width device d nets) :
    Split width device d nets := by
  have hsize : 0 < segmentSize device := Nat.le_max_right _ 1
  obtain ⟨x, y, hraked, a, ha, hdeclares, -⟩ := h
  have hadds := adds_rake width device x y
  constructor
  · exact Segment.places_ofWidth hsize
  · exact fun g hg => Segment.size_pos_of_mem hsize hg
  · refine ⟨x, y, hraked.given.factors, fun i hi => ?_⟩
    obtain ⟨hpart, hvalued⟩ := hraked.given.parts i hi
    exact ⟨hpart, hraked.given.factors.evaluates hsize hi, productOf_lt width _ i, hvalued⟩
  · intro i hone hi
    obtain ⟨a, b, ha, hb, hsum, hvalued⟩ := hraked.sums i hone hi
    exact ⟨a, b, ha, hb, hsum, Rake.evaluates_sum ha hb, hadds.sumTo_lt hi, hvalued⟩
  · exact ⟨a, hdeclares, ha.stands⟩

end Kind.Multiplier

/-- A device on which every addition takes half of the period. -/
def evenCarry : Device :=
  { slowCarry with adderDelay := fun _ => 1 }

end Retime

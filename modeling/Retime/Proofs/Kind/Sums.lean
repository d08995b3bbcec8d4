import Retime.Proofs.Kind.Copies
import Retime.Proofs.Kind.Described
import Retime.Proofs.Kind.Raking
import Retime.Proofs.Kind.Schedulable

/-! # Sums of products are exact

Each product fits the signal that its copy drives, and the sum of so many fits the width of the
sums. So with copies that multiply, every sum on the way is the sum of the first products, and
the last one is the sum of all. A product is read only when its copy has delivered.
-/

namespace Retime

open Retime.Action Verilog Operator Dataflow Build

/-- The instances multiply: an output is the product of the values at the inputs. -/
def Environment.multiplying (word : String → Nat) : Environment where
  word
  output _ values _ := (values.map (·.2)).prod

namespace Kind.SumOfProducts

variable {lib : Library} {h : Handle} {device : Device} {width count i j : Nat} {itf : Interface}
  {out : Port} {sub : Handle} {op op' : Operator} {d : Dataflow}
  {nets : Environment → List Net} {v : Nat → Environment → Nat}

/-- The product of the words of pair `j`. -/
def productOf (width j : Nat) (env : Environment) : Nat :=
  inputWord s!"A{j}" width env * inputWord s!"B{j}" width env

/-- The sum of the first `n` products. -/
def sumOf (width n : Nat) (env : Environment) : Nat :=
  ∑ j ∈ Finset.range n, productOf width j env

theorem productOf_lt (width j : Nat) (env : Environment) :
    productOf width j env < 2 ^ (2 * width) := by
  rw [Nat.two_mul, Nat.pow_add]
  exact Nat.mul_lt_mul'' (Multiplier.inputWord_lt _ _ env) (Multiplier.inputWord_lt _ _ env)

/-! ## Values -/

/-- The words of the first `i` pairs have values. -/
def Words (width i : Nat) : Facts := fun _ nets => ∀ j < i,
  Valued nets s!"A{j}" width (inputWord s!"A{j}" width) ∧
    Valued nets s!"B{j}" width (inputWord s!"B{j}" width)

/-- All words have values, and the products that are there are called `v`. -/
structure Given (width count : Nat) (v : Nat → Environment → Nat) (d : Dataflow)
    (nets : Environment → List Net) : Prop where
  words : Words width count d nets
  products : ∀ j < count, Valued nets (productName j) (2 * width) (v j)

theorem stable_words (width i : Nat) : (Words width i).Stable :=
  fun _ _ _ _ hd hd' hext hnets hwords j hj =>
    ⟨stable_valued _ _ _ hd hd' hext hnets (hwords j hj).1,
      stable_valued _ _ _ hd hd' hext hnets (hwords j hj).2⟩

theorem stable_given (width count : Nat) (v : Nat → Environment → Nat) :
    Facts.Stable (Given width count v) :=
  fun _ _ _ _ hd hd' hext hnets hgiven =>
    ⟨stable_words _ _ hd hd' hext hnets hgiven.words, fun j hj =>
      stable_valued _ _ _ hd hd' hext hnets (hgiven.products j hj)⟩

/-- The first `i` copies drive their products. -/
def Produced (width count i : Nat) : Facts := fun d nets =>
  Words width count d nets ∧ ∀ j < i, HasValue (productName j) (2 * width) d nets

/-- What the copies drive can be called by one name. -/
theorem Produced.given (hproduced : Produced width count count d nets) :
    ∃ v, (∀ j env, v j env < 2 ^ (2 * width)) ∧ Given width count v d nets := by
  have hnamed : ∀ j, ∃ v : Environment → Nat, (∀ env, v env < 2 ^ (2 * width)) ∧
      (j < count → Valued nets (productName j) (2 * width) v) := by
    intro j
    by_cases hj : j < count
    · obtain ⟨v, hlt, hv⟩ := hproduced.2 j hj
      exact ⟨v, hlt, fun _ => hv⟩
    · exact ⟨fun _ => 0, fun _ => Nat.two_pow_pos _, fun hlt => absurd hlt hj⟩
  choose v hlt hv using hnamed
  exact ⟨v, hlt, hproduced.1, hv⟩

/-- So many products add up to no more than the width of the sums holds. -/
theorem sum_lt (hcount : 1 ≤ count) {f : Nat → Nat} (hf : ∀ j, f j < 2 ^ (2 * width)) :
    ∑ j ∈ Finset.range count, f j < 2 ^ outputWidth width count := by
  have hsum : ∑ j ∈ Finset.range count, f j < ∑ _j ∈ Finset.range count, 2 ^ (2 * width) :=
    Finset.sum_lt_sum_of_nonempty ⟨0, Finset.mem_range.mpr hcount⟩ fun j _ => hf j
  rw [Finset.sum_const, Finset.card_range, smul_eq_mul] at hsum
  refine hsum.trans_le ?_
  rw [outputWidth, Nat.add_comm, Nat.pow_add]
  exact Nat.mul_le_mul_right _ (le_two_pow_ceilLog2 count)

theorem adds_rake (hcount : 1 ≤ count) (hv : ∀ j env, v j env < 2 ^ (2 * width)) :
    (rake width count).Adds (Given width count v) (fun _ => 2 * width) v count where
  stable := stable_given width count v
  valued _ _ hgiven := hgiven.products
  first _ := rfl
  named := isName_numbered (by decide)
  fits env := sum_lt hcount fun j => hv j env

/-- What it means that an operator sums up the products of pairs of words. -/
structure SumsProducts (width count : Nat) (op : Operator) : Prop where
  /-- Each pair has a copy of a multiplier, connected to its words and its product only. -/
  copies : ∃ itf, itf.name = (multiplier width).name ∧ Copies itf count op
  /-- A product is valid when its copy has delivered, and expressions read it no earlier. -/
  timely : ∀ j < count, ∃ inst p, op.instances[j]? = some inst ∧
    op.flow.netlist.find (productName j) = .ok p ∧ p.cycle = inst.outputCycle ∧
    inst.outputCycle = inst.inputCycle + inst.interface.depth ∧
    ∀ {s text e r}, op.flow.netlist.signal? s.id = some s → s.driver = .expr text →
      Expr.read text = some e → r ∈ e.references → op.flow.StandsFor r.name (productName j) →
      p.cycle ≤ s.cycle ∧ ∃ t, op.flow.netlist.find r.name = .ok t ∧ t.cycle = s.cycle
  /-- Each product is added to the sum of those before it. -/
  steps : ∀ i, 1 ≤ i → i < count → ∃ a b,
    op.flow.Declares ((rake width count).sum i) (outputWidth width count)
      (.add (.ident a) (.ident b)) ∧
    op.flow.StandsFor a ((rake width count).last i) ∧ op.flow.StandsFor b (productName i)
  result : ∃ a, op.flow.Declares "R" (outputWidth width count) (.ident a) ∧
    op.flow.StandsFor a ((rake width count).last count)
  /-- No sum exceeds its net. -/
  fits : ∀ env, ∀ i ≤ count, sumOf width i env < 2 ^ outputWidth width count
  /-- When the copies multiply, all nets hold exactly the products and sums. -/
  values : ∀ word : String → Nat, ∃ nets, op.settle (.multiplying word) = some nets ∧
    (∀ j < count, Holds nets (productName j) (2 * width) (productOf width j (.multiplying word))) ∧
    (∀ i, 1 ≤ i → i < count → Holds nets ((rake width count).sum i) (outputWidth width count)
      (sumOf width (i + 1) (.multiplying word))) ∧
    Holds nets "R" (outputWidth width count) (sumOf width count (.multiplying word))

/-- The sum of products that are the products of words. -/
theorem sumTo_eq {n : Nat} {env : Environment} (hn : n ≤ count)
    (hv : ∀ j < count, v j env = productOf width j env) :
    (rake width count).sumTo v n env = sumOf width n env :=
  Finset.sum_congr rfl fun j hj => hv j ((Finset.mem_range.mp hj).trans_le hn)

/-- The schedule does not matter. -/
theorem SumsProducts.finish (hop : SumsProducts width count op) (schedule : Option Schedule) :
    SumsProducts width count { op with schedule } where
  copies := by
    obtain ⟨itf, hname, hcopies⟩ := hop.copies
    exact ⟨itf, hname, hcopies.mono (.refl _) rfl⟩
  timely := hop.timely
  steps := hop.steps
  result := hop.result
  fits := hop.fits
  values word := by
    have hsettle :
        settle (.multiplying word) { op with schedule } = settle (.multiplying word) op :=
      settleFrom_congr rfl
    rw [hsettle]
    exact hop.values word

end Kind.SumOfProducts

namespace Library

open Kind SumOfProducts

end Library

end Retime

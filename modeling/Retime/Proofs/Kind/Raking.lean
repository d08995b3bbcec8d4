import Mathlib.Algebra.Order.BigOperators.Group.Finset
import Retime.Proofs.Kind.Values
import Retime.Kind.Rake

/-! # Rakes add their terms

The sum that a rake has after some terms is the weighted sum of these terms. As long as the sum
of all terms fits the width of the rake, none of the sums on the way loses a bit.
-/

namespace Retime.Kind.Rake

open Verilog Operator Dataflow Build

/-- What a term contributes. -/
def weighed (r : Rake) (i v : Nat) : Nat :=
  match r.shift i with
  | none => v
  | some places => v * 2 ^ places

/-- The sum of the first `n` terms. -/
def sumTo (r : Rake) (term : Nat → Environment → Nat) (n : Nat) (env : Environment) : Nat :=
  ∑ j ∈ Finset.range n, r.weighed j (term j env)

/-- The name of the sum of the first `n` terms; the first term is a sum by itself. -/
def last (r : Rake) (n : Nat) : String :=
  if n ≤ 1 then r.term 0 else r.sum (n - 1)

/-- The width of the sum of the first `n` terms. -/
def lastWidth (r : Rake) (widths : Nat → Nat) (n : Nat) : Nat :=
  if n ≤ 1 then widths 0 else r.width

/-- Term `i` was added to the sum of those before it. -/
def Sums (r : Rake) (widths : Nat → Nat) (term : Nat → Environment → Nat) (i : Nat) : Facts :=
  fun d nets => ∃ a b,
    Identifies (r.last i) (r.lastWidth widths i) (r.sumTo term i) a d nets ∧
    Identifies (r.term i) (widths i) (term i) b d nets ∧
    d.Declares (r.sum i) r.width (.add (.ident a) (r.weigh i (.ident b))) ∧
    Valued nets (r.sum i) r.width (r.sumTo term (i + 1))

/-- What is given is known, and the terms before `n` were added. -/
structure Raked (r : Rake) (F : Facts) (widths : Nat → Nat) (term : Nat → Environment → Nat)
    (n : Nat) (d : Dataflow) (nets : Environment → List Net) : Prop where
  given : F d nets
  sums : ∀ i, 1 ≤ i → i < n → r.Sums widths term i d nets

/-- The terms that are given can be added. -/
structure Adds (r : Rake) (F : Facts) (widths : Nat → Nat) (term : Nat → Environment → Nat)
    (count : Nat) : Prop where
  stable : F.Stable
  valued : ∀ d nets, F d nets → ∀ i < count, Valued nets (r.term i) (widths i) (term i)
  first : ∀ v, r.weighed 0 v = v
  named : ∀ i, isName (r.sum i).toList = true
  fits : ∀ env, r.sumTo term count env < 2 ^ r.width

variable {lib : Library} {h : Handle} {device : Device} {r : Rake} {widths : Nat → Nat}
  {term : Nat → Environment → Nat} {count n i : Nat} {d : Dataflow}
  {nets : Environment → List Net} {F : Facts}

theorem stable_sums (r : Rake) (widths : Nat → Nat) (term : Nat → Environment → Nat) (i : Nat) :
    Facts.Stable (r.Sums widths term i) := by
  rintro d d' nets nets' hd hd' hext hnets ⟨a, b, ha, hb, hdeclares, hvalued⟩
  exact ⟨a, b, stable_identifies _ _ _ _ hd hd' hext hnets ha,
    stable_identifies _ _ _ _ hd hd' hext hnets hb, hdeclares.mono hd hd' hext,
    stable_valued _ _ _ hd hd' hext hnets hvalued⟩

theorem Adds.stable_raked (hr : r.Adds F widths term count) (n : Nat) :
    Facts.Stable (r.Raked F widths term n) := by
  intro d d' nets nets' hd hd' hext hnets h
  constructor
  · exact hr.stable hd hd' hext hnets h.given
  · exact fun i hone hi => stable_sums _ _ _ _ hd hd' hext hnets (h.sums i hone hi)

theorem sumTo_mono (r : Rake) (term : Nat → Environment → Nat) {m n : Nat} (h : m ≤ n)
    (env : Environment) : r.sumTo term m env ≤ r.sumTo term n env :=
  Finset.sum_le_sum_of_subset (Finset.range_subset_range.mpr h)

theorem Adds.sumTo_lt (h : r.Adds F widths term count) (hn : n ≤ count) (env : Environment) :
    r.sumTo term n env < 2 ^ r.width :=
  (r.sumTo_mono term hn env).trans_lt (h.fits env)

/-- The sum so far. -/
theorem Raked.valued_last (h : r.Raked F widths term n d nets) (hr : r.Adds F widths term count)
    (hone : 1 ≤ n) (hn : n ≤ count) :
    Valued nets (r.last n) (r.lastWidth widths n) (r.sumTo term n) := by
  rcases Nat.eq_or_lt_of_le hone with rfl | hmore
  · have hfirst : r.sumTo term 1 = term 0 := by
      funext env
      simp [sumTo, hr.first]
    simpa [last, lastWidth, hfirst] using hr.valued d nets h.given 0 hn
  · obtain ⟨a, b, -, -, -, hvalued⟩ := h.sums (n - 1) (by omega) (by omega)
    rw [Nat.sub_add_cancel hone] at hvalued
    simpa [last, lastWidth, Nat.not_le_of_lt hmore] using hvalued

theorem evaluates_weigh {b : String} {v : Environment → Nat} {width : Nat}
    (hb : Valued nets b width v) :
    Evaluates nets (r.weigh i (.ident b)) width fun env => r.weighed i (v env) := by
  unfold weigh weighed
  cases r.shift i with
  | none => exact hb.ident
  | some places => exact hb.ident.shiftLeft places

theorem weigh_legible {b : String} (hb : isName b.toList = true) :
    Legible .product (r.weigh i (.ident b)) := by
  unfold weigh
  cases r.shift i with
  | none => exact (Legible.ident hb).factor
  | some places => exact (Legible.shiftLeft (Legible.ident hb).factor.term places).factor

/-- What is assigned to the next sum has the value of the sum. -/
theorem evaluates_sum {a b : String}
    (ha : Identifies (r.last i) (r.lastWidth widths i) (r.sumTo term i) a d nets)
    (hb : Identifies (r.term i) (widths i) (term i) b d nets) :
    Evaluates nets (.add (.ident a) (r.weigh i (.ident b)))
      (max (r.lastWidth widths i) (widths i)) (r.sumTo term (i + 1)) := by
  intro env
  obtain ⟨hwidth, hvalue⟩ := ha.valued.ident.add (evaluates_weigh (r := r) (i := i) hb.valued) env
  refine ⟨hwidth, hvalue.trans (congrArg some ?_)⟩
  exact (Finset.sum_range_succ _ i).symm

/-- Adding the terms from `i` on. -/
theorem knows_addTerms (hr : r.Adds F widths term count) (hone : 1 ≤ i) (hcount : i + n = count) :
    Triple lib h (fun _ => True) (Knows (r.Raked F widths term i))
      (r.addTerms device (r.last i) i n) fun sum => Knows fun d nets =>
        sum = r.last count ∧ r.Raked F widths term count d nets := by
  induction n generalizing i with
  | zero =>
      obtain rfl : i = count := hcount
      exact knows_answer _ fun d nets hknown => ⟨rfl, hknown⟩
  | succ n ih =>
      have hraked := hr.stable_raked i
      refine (knows_accrue _).bind fun _ => ?_
      refine (knows_consume hraked fun d nets hknown =>
        hknown.valued_last hr hone (by omega)).bind fun a => ?_
      have hleft := hraked.and (stable_identifies (r.last i) (r.lastWidth widths i)
        (r.sumTo term i) a)
      refine (knows_consume hleft fun d nets hknown =>
        hr.valued d nets hknown.1.given i (by omega)).bind fun b => ?_
      have hright := hleft.and (stable_identifies (r.term i) (widths i) (term i) b)
      apply knows_of (P := Legible .sum (.add (.ident a) (r.weigh i (.ident b))))
      · rintro d nets ⟨⟨-, ha⟩, hb⟩
        exact (Legible.ident ha.named).factor.term.add (weigh_legible hb.named)
      intro hlegible
      have hdeclared := @knows_declare _ lib h (r.sum i) r.width _ _ _ hright
        (fun d nets hknown => evaluates_sum hknown.1.2 hknown.2) hlegible (hr.named i)
      refine hdeclared.bind fun _ => ?_
      -- the sum that was declared is the one that the next term is added to
      have hname : r.sum i = r.last (i + 1) := by
        simp [last, Nat.not_le_of_lt (Nat.lt_succ_of_le hone)]
      rw [hname]
      apply (ih (Nat.le_succ_of_le hone) (by omega)).conseq
      · refine fun op hop => hop.mono ?_
        rintro d nets ⟨⟨⟨hbefore, ha⟩, hb⟩, hvalued, hdeclares⟩
        refine ⟨hbefore.given, fun j hj hlt => ?_⟩
        rcases Nat.lt_succ_iff_lt_or_eq.mp hlt with hold | rfl
        · exact hbefore.sums j hj hold
        · have hsum := hvalued.of_lt (hr.sumTo_lt (n := j + 1) (by omega))
          exact ⟨a, b, ha, hb, hname ▸ hdeclares, hname ▸ hsum⟩
      · exact fun _ _ hop => hop

/-- What a rake leaves: its sums, and their last one as the result. -/
def Gives (r : Rake) (F : Facts) (widths : Nat → Nat) (term : Nat → Environment → Nat)
    (count : Nat) : Facts :=
  fun d nets => r.Raked F widths term count d nets ∧
    ∃ a, Identifies (r.last count) (r.lastWidth widths count) (r.sumTo term count) a d nets ∧
      d.Declares "R" r.width (.ident a) ∧ Valued nets "R" r.width (r.sumTo term count)

/-- The last sum is the result. -/
theorem knows_result (hr : r.Adds F widths term count) (hcount : 1 ≤ count) :
    Triple lib h (fun _ => True) (Knows (r.Raked F widths term count))
      (do let total ← consume (r.last count); output "R" r.width total)
      fun _ => Knows (r.Gives F widths term count) := by
  have hraked := hr.stable_raked count
  refine (knows_consume hraked fun d nets hknown =>
    hknown.valued_last hr hcount (Nat.le_refl _)).bind fun a => ?_
  have hlast := hraked.and (stable_identifies (r.last count) (r.lastWidth widths count)
    (r.sumTo term count) a)
  apply knows_of (P := isName a.toList = true) fun d nets hknown => hknown.2.named
  intro hnamed
  apply (@knows_output _ lib h "R" r.width _ _ (.ident a) hlast
    (fun d nets hknown => hknown.2.valued.ident) (Legible.ident hnamed).factor.term (by decide)).weaken
  rintro - d nets ⟨⟨hknown, ha⟩, hvalued, hdeclares⟩
  exact ⟨hknown, a, ha, hdeclares, hvalued.of_lt hr.fits⟩

theorem knows_build (hr : r.Adds F widths term count) (hcount : 1 ≤ count) :
    Triple lib h (fun _ => True) (Knows (r.Raked F widths term 1)) (r.build device count)
      fun _ => Knows (r.Gives F widths term count) := by
  have hfirst : r.term 0 = r.last 1 := rfl
  unfold build
  rw [hfirst]
  refine (knows_addTerms hr (Nat.le_refl 1) (Nat.add_sub_cancel' hcount)).bind fun sum => ?_
  apply knows_of (P := sum = r.last count) fun d nets hknown => hknown.1
  rintro rfl
  apply (knows_result hr hcount).conseq
  · exact fun op hop => hop.mono fun d nets hknown => hknown.2
  · exact fun _ _ hop => hop

end Retime.Kind.Rake

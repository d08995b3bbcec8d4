import Retime.Proofs.Kind.Tiling

/-! # Adders add

Segment by segment the partial sums of an adder, with their carries, are those of the school
method: the carry into a segment is that of the bits below it, and the bits that a partial sum
has in its segment are those of the sum. So the parts of the result are the parts of the sum.
-/

namespace Retime

namespace Segment

/-- The carry out of the positions below `low`. -/
def carry (low x y : Nat) : Nat :=
  (x % 2 ^ low + y % 2 ^ low) / 2 ^ low

/-- The partial sum of a segment. -/
def total (g : Segment) (x y : Nat) : Nat :=
  g.part x + g.part y + carry g.low x y

theorem carry_le_one (low x y : Nat) : carry low x y ≤ 1 := by
  have hpos := Nat.two_pow_pos low
  have hx := Nat.mod_lt x hpos
  have hy := Nat.mod_lt y hpos
  refine Nat.le_of_lt_succ (Nat.div_lt_of_lt_mul ?_)
  omega

theorem carry_zero (x y : Nat) : carry 0 x y = 0 := by
  simp [carry, Nat.mod_one]

/-- A partial sum needs one bit more than its segment has. -/
theorem total_lt (g : Segment) (x y : Nat) : g.total x y < 2 ^ (g.size + 1) := by
  have hx := g.part_lt x
  have hy := g.part_lt y
  have hcarry := carry_le_one g.low x y
  rw [Nat.pow_succ]
  unfold total
  omega

/-- In its segment a partial sum has the bits of the sum. -/
theorem total_mod (g : Segment) (x y : Nat) : g.total x y % 2 ^ g.size = g.part (x + y) := by
  have hpos := Nat.two_pow_pos g.low
  have hsum : (x + y) / 2 ^ g.low = x / 2 ^ g.low + y / 2 ^ g.low + carry g.low x y := by
    have hx := Nat.div_add_mod x (2 ^ g.low)
    have hy := Nat.div_add_mod y (2 ^ g.low)
    have hsplit : x + y = 2 ^ g.low * (x / 2 ^ g.low + y / 2 ^ g.low) +
        (x % 2 ^ g.low + y % 2 ^ g.low) := by
      rw [Nat.mul_add]
      omega
    conv_lhs => rw [hsplit]
    rw [Nat.mul_add_div hpos]
    rfl
  rw [part, hsum, total, part, part, Nat.add_mod, Nat.add_mod (x / _ + _), ← Nat.add_mod (x / _)]

/-- The top bit of a partial sum is the carry into the next segment. -/
theorem total_div (g : Segment) (x y : Nat) :
    g.total x y / 2 ^ g.size = carry (g.low + g.size) x y := by
  have hpos := Nat.two_pow_pos g.low
  have hsplit : x % 2 ^ (g.low + g.size) + y % 2 ^ (g.low + g.size) =
      2 ^ g.low * (g.part x + g.part y) + (x % 2 ^ g.low + y % 2 ^ g.low) := by
    rw [Nat.pow_add, Nat.mod_mul, Nat.mod_mul, Nat.mul_add]
    unfold part
    omega
  rw [carry, hsplit, Nat.pow_add, ← Nat.div_div_eq_div_mul, Nat.mul_add_div hpos]
  rfl

end Segment

namespace Kind.Adder

open Verilog Operator Dataflow Build

/-- A segment of a word, extended by one bit. -/
def extended (g : Segment) (name : String) : Expr :=
  .concat [.zero 1, .slice name g.high g.low]

/-- What is assigned to the partial sum of a segment. -/
def partSum (g : Segment) (x y : String) (carry : Expr) : Expr :=
  .add (.add (extended g x) (extended g y)) carry

/-- The sum of the words in a segment, with the carry. -/
def totalOf (width size i : Nat) (env : Environment) : Nat :=
  (Segment.nth width size i).total (inputWord "X" width env) (inputWord "Y" width env)

/-- The carry into a segment: there is none into the first one, and into the next ones it is the
top bit of the partial sum before. -/
inductive CarryOf (width size : Nat) (d : Dataflow) (nets : Environment → List Net) :
    Nat → Expr → Prop where
  | first : CarryOf width size d nets 0 (.zero 1)
  | next (i : Nat) (name : String) (part : Identifies (partName i)
        ((Segment.nth width size i).size + 1) (totalOf width size i) name d nets) :
      CarryOf width size d nets (i + 1) (.bit name (Segment.nth width size i).size)

/-- What a partial sum is made of. -/
structure Summands (width size i : Nat) (x y : String) (carry : Expr) (d : Dataflow)
    (nets : Environment → List Net) : Prop where
  left : Identifies "X" width (inputWord "X" width) x d nets
  right : Identifies "Y" width (inputWord "Y" width) y d nets
  carry : CarryOf width size d nets i carry

/-- Segment `i` was added. -/
def Added (width size i : Nat) : Facts := fun d nets =>
  ∃ x y carry, Summands width size i x y carry d nets ∧
    d.Declares (partName i) ((Segment.nth width size i).size + 1)
      (partSum (Segment.nth width size i) x y carry) ∧
    Valued nets (partName i) ((Segment.nth width size i).size + 1) (totalOf width size i)

/-- The first `n` segments were added. -/
structure AddedTo (width size n : Nat) (d : Dataflow) (nets : Environment → List Net) : Prop where
  left : Valued nets "X" width (inputWord "X" width)
  right : Valued nets "Y" width (inputWord "Y" width)
  parts : ∀ i < n, Added width size i d nets

variable {lib : Library} {h : Handle} {device : Device} {width size i n : Nat}
  {x y : String} {carry : Expr} {d : Dataflow} {nets : Environment → List Net} {F : Facts}

theorem stable_carryOf (width size i : Nat) (carry : Expr) :
    Facts.Stable fun d nets => CarryOf width size d nets i carry := by
  intro d d' nets nets' hd hd' hext hnets h
  cases h with
  | first => exact .first
  | next i name part =>
      exact .next i name (stable_identifies _ _ _ _ hd hd' hext hnets part)

theorem stable_summands (width size i : Nat) (x y : String) (carry : Expr) :
    Facts.Stable (Summands width size i x y carry) := by
  intro d d' nets nets' hd hd' hext hnets h
  constructor
  · exact stable_identifies _ _ _ _ hd hd' hext hnets h.left
  · exact stable_identifies _ _ _ _ hd hd' hext hnets h.right
  · exact stable_carryOf _ _ _ _ hd hd' hext hnets h.carry

theorem stable_added (width size i : Nat) : Facts.Stable (Added width size i) := by
  rintro d d' nets nets' hd hd' hext hnets ⟨x, y, carry, hsummands, hdeclares, hvalued⟩
  exact ⟨x, y, carry, stable_summands _ _ _ _ _ _ hd hd' hext hnets hsummands,
    hdeclares.mono hd hd' hext, stable_valued _ _ _ hd hd' hext hnets hvalued⟩

theorem stable_addedTo (width size n : Nat) : Facts.Stable (AddedTo width size n) := by
  intro d d' nets nets' hd hd' hext hnets h
  constructor
  · exact stable_valued _ _ _ hd hd' hext hnets h.left
  · exact stable_valued _ _ _ hd hd' hext hnets h.right
  · exact fun i hi => stable_added _ _ _ hd hd' hext hnets (h.parts i hi)

/-! ## One segment -/

theorem extended_legible {g : Segment} {name : String} (hname : isName name.toList = true) :
    Legible .product (extended g name) := by
  refine .factor (.concat (by simp) fun e he => ?_)
  simp only [List.mem_cons, List.not_mem_nil, or_false] at he
  rcases he with rfl | rfl
  · exact (Legible.zero 1).factor.term
  · exact (Legible.slice hname _ _).factor.term

section Segment

variable (hsize : 0 < size) (hi : i < Segment.count width size)
include hsize hi

/-- The bits of a word in a segment, with a zero before them. -/
theorem evaluates_extended {name : String} {v : Environment → Nat} (hv : Valued nets name width v) :
    Evaluates nets (extended (Segment.nth width size i) name)
      ((Segment.nth width size i).size + 1) fun env => (Segment.nth width size i).part (v env) := by
  have hparts := (evaluates_zero nets 1).part (fun _ => Nat.two_pow_pos 1)
    ((Segment.evaluates_slice hsize hi hv).part (fun env => Segment.part_lt _ _)
      (evaluatesParts_nil nets))
  have hconcat := hparts.concat
  simp only [Nat.zero_mul, Nat.zero_add, Nat.add_zero, Nat.pow_zero, Nat.mul_one] at hconcat
  rw [Nat.add_comm 1] at hconcat
  exact hconcat

theorem CarryOf.evaluates (hcarry : CarryOf width size d nets i carry) :
    Evaluates nets carry 1 fun env => Segment.carry (Segment.nth width size i).low
      (inputWord "X" width env) (inputWord "Y" width env) := by
  cases hcarry with
  | first =>
      simp only [Segment.nth, Nat.zero_mul, Segment.carry_zero]
      exact evaluates_zero nets 1
  | next i name part =>
      have hbit := part.valued.bit (Nat.lt_succ_self _)
      intro env
      obtain ⟨hwidth, hvalue⟩ := hbit env
      refine ⟨hwidth, hvalue.trans (congrArg some ?_)⟩
      have hlow : (Segment.nth width size i).low + (Segment.nth width size i).size =
          (Segment.nth width size (i + 1)).low := by
        rw [Segment.size_of_next hsize hi]
        exact (Nat.succ_mul i size).symm
      dsimp only
      rw [totalOf, Segment.total_div, hlow]
      exact Nat.mod_eq_of_lt (Nat.lt_succ_of_le (Segment.carry_le_one _ _ _))

theorem Summands.evaluates (h : Summands width size i x y carry d nets) :
    Evaluates nets (partSum (Segment.nth width size i) x y carry)
      ((Segment.nth width size i).size + 1) (totalOf width size i) := by
  have hsum := ((evaluates_extended hsize hi h.left.valued).add
    (evaluates_extended hsize hi h.right.valued)).add (h.carry.evaluates hsize hi)
  have hmax : max (max ((Segment.nth width size i).size + 1) ((Segment.nth width size i).size + 1)) 1 =
      (Segment.nth width size i).size + 1 := by omega
  rw [hmax] at hsum
  exact hsum

/-- The carry is asked for. -/
theorem knows_carryInto (hF : F.Stable) (hadded : ∀ d nets, F d nets → AddedTo width size i d nets) :
    Triple lib h (fun _ => True) (Knows F) (carryInto size i) fun carry => Knows fun d nets =>
      F d nets ∧ CarryOf width size d nets i carry ∧ Legible .primary carry := by
  cases i with
  | zero => exact knows_answer _ fun d nets hknown => ⟨hknown, .first, .zero 1⟩
  | succ i =>
      have hvalued : ∀ d nets, F d nets → Valued nets (partName i)
          ((Segment.nth width size i).size + 1) (totalOf width size i) := fun d nets hknown => by
        obtain ⟨x, y, carry, -, -, hvalued⟩ := (hadded d nets hknown).parts i (Nat.lt_succ_self i)
        exact hvalued
      refine (knows_consume hF hvalued).bind fun part => knows_answer _ fun d nets hknown => ?_
      have hcarry := @CarryOf.next width size d nets i part hknown.2
      rw [Segment.size_of_next hsize hi] at hcarry
      exact ⟨hknown.1, hcarry, .bit hknown.2.named size⟩

/-- Adding segment `i` after those before it. -/
theorem knows_addSegment : Triple lib h (fun _ => True) (Knows (AddedTo width size i))
    (addSegment device width size i) fun _ => Knows (AddedTo width size (i + 1)) := by
  have hadded := stable_addedTo width size i
  refine (knows_accrue _).bind fun _ => ?_
  refine (knows_consume hadded fun d nets h => h.left).bind fun x => ?_
  have hleft := hadded.and (stable_identifies "X" width (inputWord "X" width) x)
  refine (knows_consume hleft fun d nets h => h.1.right).bind fun y => ?_
  have hright := hleft.and (stable_identifies "Y" width (inputWord "Y" width) y)
  refine (knows_carryInto hsize hi hright fun d nets h => h.1.1).bind fun carry => ?_
  apply knows_of (P := Legible .sum (partSum (Segment.nth width size i) x y carry))
  · rintro d nets ⟨⟨⟨-, hx⟩, hy⟩, -, hcarry⟩
    exact (Legible.add (extended_legible hx.named).term (extended_legible hy.named)).add hcarry.factor
  intro hlegible
  have hdeclared := @knows_declare _ lib h (partName i) ((Segment.nth width size i).size + 1) _ _ _
    (hadded.and (stable_summands width size i x y carry))
    (fun d nets hknown => hknown.2.evaluates hsize hi) hlegible (isName_numbered (by decide) i)
  apply hdeclared.conseq
  · exact fun op hop => hop.mono fun d nets hknown =>
      ⟨hknown.1.1.1, hknown.1.1.2, hknown.1.2, hknown.2.1⟩
  · refine fun _ op hop => hop.mono fun d nets hknown => ?_
    obtain ⟨⟨hbefore, hsummands⟩, hvalued, hdeclares⟩ := hknown
    have hsum := hvalued.of_lt fun env => Segment.total_lt _ _ _
    exact ⟨hbefore.left, hbefore.right, Nat.forall_lt_succ_right.mpr
      ⟨hbefore.parts, x, y, carry, hsummands, hdeclares, hsum⟩⟩

end Segment

/-! ## The result -/

/-- The bits of the result in segment `i`: those of the partial sum without its top bit. -/
def IsPart (width size i : Nat) (e : Expr) : Facts := fun d nets =>
  ∃ a, Identifies (partName i) ((Segment.nth width size i).size + 1) (totalOf width size i) a d nets ∧
    e = .slice a ((Segment.nth width size i).size - 1) 0

theorem stable_isPart (width size i : Nat) (e : Expr) : Facts.Stable (IsPart width size i e) := by
  rintro d d' nets nets' hd hd' hext hnets ⟨a, ha, he⟩
  exact ⟨a, stable_identifies _ _ _ _ hd hd' hext hnets ha, he⟩

theorem knows_sumOf (hF : F.Stable) (hi : i < n)
    (hadded : ∀ d nets, F d nets → AddedTo width size n d nets) :
    Triple lib h (fun _ => True) (Knows F) (sumOf width size i) fun e => Knows fun d nets =>
      F d nets ∧ IsPart width size i e d nets := by
  have hvalued : ∀ d nets, F d nets → Valued nets (partName i)
      ((Segment.nth width size i).size + 1) (totalOf width size i) := fun d nets hknown => by
    obtain ⟨x, y, carry, -, -, hvalued⟩ := (hadded d nets hknown).parts i hi
    exact hvalued
  refine (knows_consume hF hvalued).bind fun a => knows_answer _ fun d nets hknown => ?_
  exact ⟨hknown.1, a, hknown.2, rfl⟩

theorem IsPart.legible {e : Expr} (he : IsPart width size i e d nets) : Legible .sum e := by
  obtain ⟨a, ha, rfl⟩ := he
  exact (Legible.slice ha.named _ _).factor.term

/-- The sum of the words. -/
def sumWord (width : Nat) (env : Environment) : Nat :=
  inputWord "X" width env + inputWord "Y" width env

theorem IsPart.evaluates (hsize : 0 < size) (hi : i < Segment.count width size) {e : Expr}
    (he : IsPart width size i e d nets) : Evaluates nets e (Segment.nth width size i).size
      fun env => (Segment.nth width size i).part (sumWord width env) := by
  obtain ⟨a, ha, rfl⟩ := he
  have hpos := Segment.size_nth_pos hsize hi
  have hslice := ha.valued.slice (Nat.zero_le ((Segment.nth width size i).size - 1)) (by omega)
  rw [Nat.sub_zero, Nat.sub_add_cancel hpos] at hslice
  intro env
  obtain ⟨hwidth, hvalue⟩ := hslice env
  refine ⟨hwidth, hvalue.trans (congrArg some ?_)⟩
  dsimp only
  rw [Nat.pow_zero, Nat.div_one, totalOf, Segment.total_mod]
  rfl

/-- The parts of the first `n` segments, the last one first, make up the lowest bits. -/
theorem evaluates_parts (hsize : 0 < size) (hn : n ≤ Segment.count width size) {parts : List Expr}
    (hparts : List.Forall₂ (fun i e => IsPart width size i e d nets) (List.range n).reverse parts) :
    EvaluatesParts nets parts (min (n * size) width)
      fun env => sumWord width env % 2 ^ min (n * size) width := by
  induction n generalizing parts with
  | zero =>
      cases hparts
      simpa [Nat.mod_one] using evaluatesParts_nil nets
  | succ n ih =>
      -- the last segment stands first, so one more segment is one more part in front
      rw [List.range_succ, List.reverse_append, List.reverse_singleton,
        List.singleton_append] at hparts
      obtain ⟨e, parts, hpart, hrest, rfl⟩ := List.forall₂_cons_left_iff.mp hparts
      have hlow : min (n * size) width = n * size := Nat.min_eq_left (Segment.low_lt hsize hn).le
      have hreach := Segment.low_add_size hsize hn
      have hbelow := ih (Nat.le_of_succ_le hn) hrest
      rw [hlow] at hbelow
      have hall := (hpart.evaluates hsize hn).part (fun env => Segment.part_lt _ _) hbelow
      intro env
      obtain ⟨hwidth, hvalue⟩ := hall env
      rw [← hreach]
      refine ⟨hwidth.trans (congrArg some (Nat.add_comm _ _)), hvalue.trans (congrArg some ?_)⟩
      dsimp only
      rw [Nat.pow_add, Nat.mod_mul, Nat.mul_comm (2 ^ _)]
      exact Nat.add_comm _ _

/-- All segments were added, and their parts are the result. -/
structure Summed (width size : Nat) (parts : List Expr) (d : Dataflow)
    (nets : Environment → List Net) : Prop where
  added : AddedTo width size (Segment.count width size) d nets
  parts : List.Forall₂ (fun i e => IsPart width size i e d nets)
    (List.range (Segment.count width size)).reverse parts

theorem stable_summed (width size : Nat) (parts : List Expr) :
    Facts.Stable (Summed width size parts) := by
  intro d d' nets nets' hd hd' hext hnets h
  constructor
  · exact stable_addedTo _ _ _ hd hd' hext hnets h.added
  · exact stable_forall₂ (stable_isPart width size) _ _ hd hd' hext hnets h.parts

theorem Summed.legible (hcount : 0 < Segment.count width size) {parts : List Expr}
    (h : Summed width size parts d nets) : Legible .sum (.concat parts) := by
  have hlength := h.parts.length_eq
  rw [List.length_reverse, List.length_range] at hlength
  refine (Legible.concat (fun hnil => ?_) fun e he => ?_).factor.term
  · rw [hnil] at hlength
    exact Nat.ne_of_gt hcount hlength
  · obtain ⟨i, -, hpart⟩ := exists_left_of_forall₂ h.parts he
    exact hpart.legible

theorem Summed.evaluates (hsize : 0 < size) {parts : List Expr}
    (h : Summed width size parts d nets) : Evaluates nets (.concat parts) width
      fun env => sumWord width env % 2 ^ width := by
  have hall := (evaluates_parts hsize (Nat.le_refl _) h.parts).concat
  rwa [Nat.min_eq_right (Segment.width_le hsize)] at hall

/-- An operator that adds by segments. -/
def AddsSegments (width size : Nat) : Facts := fun d nets =>
  ∃ parts, Summed width size parts d nets ∧ d.Declares "R" width (.concat parts) ∧
    Valued nets "R" width fun env => sumWord width env % 2 ^ width

theorem knows_segmented (hsize : 0 < size) (hcount : 0 < Segment.count width size) :
    Triple lib h (fun _ => True) (Knows (AddedTo width size 0)) (segmented device width size)
      fun _ => Knows (AddsSegments width size) := by
  refine (triple_range (fun i => Knows (AddedTo width size i)) fun i hi =>
    knows_addSegment hsize hi).bind fun _ => ?_
  refine (knows_collect (stable_isPart width size) (fun i hi G hG hadded => knows_sumOf hG
    (List.mem_range.mp (List.mem_reverse.mp hi)) hadded) (stable_addedTo _ _ _)).bind
      fun parts => ?_
  have hsummed : ∀ op, Knows (fun d nets => AddedTo width size (Segment.count width size) d nets ∧
      List.Forall₂ (fun i e => IsPart width size i e d nets)
        (List.range (Segment.count width size)).reverse parts) op → Knows (Summed width size parts) op :=
    fun op hop => hop.mono fun d nets hknown => ⟨hknown.1, hknown.2⟩
  have houtput : Triple lib h (fun _ => True) (Knows (Summed width size parts))
      (output "R" width (Expr.concat parts).text) fun _ => Knows (AddsSegments width size) := by
    apply knows_of (P := Legible .sum (.concat parts)) fun d nets hknown => hknown.legible hcount
    intro hlegible
    apply (knows_output (stable_summed width size parts)
      (fun d nets hknown => hknown.evaluates hsize) hlegible (by decide)).weaken
    rintro - d nets ⟨hknown, hvalued, hdeclares⟩
    simp only [Nat.mod_mod] at hvalued
    exact ⟨parts, hknown, hdeclares, hvalued⟩
  exact houtput.conseq hsummed fun _ _ hop => hop

/-- An operator with one carry chain. -/
def AddsAtOnce (width : Nat) : Facts := fun d nets =>
  (∃ x y, Identifies "X" width (inputWord "X" width) x d nets ∧
    Identifies "Y" width (inputWord "Y" width) y d nets ∧
      d.Declares "R" width (.add (.ident x) (.ident y))) ∧
    Valued nets "R" width fun env => sumWord width env % 2 ^ width

theorem knows_whole : Triple lib h (fun _ => True) (Knows (AddedTo width size 0))
    (whole device width) fun _ => Knows (AddsAtOnce width) := by
  have hadded := stable_addedTo width size 0
  refine (knows_accrue _).bind fun _ => ?_
  refine (knows_consume hadded fun d nets h => h.left).bind fun x => ?_
  have hleft := hadded.and (stable_identifies "X" width (inputWord "X" width) x)
  refine (knows_consume hleft fun d nets h => h.1.right).bind fun y => ?_
  have hright := hleft.and (stable_identifies "Y" width (inputWord "Y" width) y)
  apply knows_of (P := Legible .sum (.add (.ident x) (.ident y)))
  · rintro d nets ⟨⟨-, hx⟩, hy⟩
    exact (Legible.ident hx.named).factor.term.add (Legible.ident hy.named).factor
  intro hlegible
  apply (knows_output hright (fun d nets hknown => hknown.1.2.valued.ident.add
    hknown.2.valued.ident) hlegible (by decide)).weaken
  rintro - d nets ⟨⟨⟨-, hx⟩, hy⟩, hvalued, hdeclares⟩
  exact ⟨⟨x, y, hx, hy, hdeclares⟩, hvalued⟩

/-! ## Whole adders -/

/-- How an operator adds by segments. -/
structure Split (width size : Nat) (d : Dataflow) (nets : Environment → List Net) : Prop where
  /-- The segments have no gap and no overlap, and cover the word. -/
  tiled : (Segment.ofWidth width size).flatMap Segment.places = List.range width
  nonempty : ∀ g ∈ Segment.ofWidth width size, 0 < g.size
  /-- Every partial sum fits its signal, with the carry that is taken from the one before. -/
  segment : ∀ i < Segment.count width size, ∃ x y carry,
    Summands width size i x y carry d nets ∧
      d.Declares (partName i) ((Segment.nth width size i).size + 1)
        (partSum (Segment.nth width size i) x y carry) ∧
      Evaluates nets (partSum (Segment.nth width size i) x y carry)
        ((Segment.nth width size i).size + 1) (totalOf width size i) ∧
      (∀ env, totalOf width size i env < 2 ^ ((Segment.nth width size i).size + 1)) ∧
      Valued nets (partName i) ((Segment.nth width size i).size + 1) (totalOf width size i)
  /-- The result is put together of the partial sums without their top bits. -/
  result : ∃ parts, d.Declares "R" width (.concat parts) ∧
    List.Forall₂ (fun i e => IsPart width size i e d nets)
      (List.range (Segment.count width size)).reverse parts ∧
    Evaluates nets (.concat parts) width fun env => sumWord width env % 2 ^ width

/-- What it means that an operator adds two words. -/
structure Adds (device : Device) (width : Nat) (op : Operator) : Prop where
  sum : ∀ env : Environment, env.word "X" < 2 ^ width → env.word "Y" < 2 ^ width →
    ∃ nets, op.settle env = some nets ∧
      Holds nets "R" width ((env.word "X" + env.word "Y") % 2 ^ width)
  split : segmentSize device width < width → ∃ nets : Environment → List Net,
    (∀ env, op.settle env = some (nets env)) ∧ Split width (segmentSize device width) op.flow nets

theorem AddsSegments.split (hsize : 0 < size) (h : AddsSegments width size d nets) :
    Split width size d nets := by
  obtain ⟨parts, hsummed, hdeclares, -⟩ := h
  constructor
  · exact Segment.places_ofWidth hsize
  · exact fun g hg => Segment.size_pos_of_mem hsize hg
  · intro i hi
    obtain ⟨x, y, carry, hsummands, hpart, hvalued⟩ := hsummed.added.parts i hi
    exact ⟨x, y, carry, hsummands, hpart, hsummands.evaluates hsize hi,
      fun env => Segment.total_lt _ _ _, hvalued⟩
  · exact ⟨parts, hdeclares, hsummed.parts, hsummed.evaluates hsize⟩

theorem knows_inputs (size : Nat) : Triple lib h (fun _ => True) (Knows fun _ _ => True)
    (inputs width) fun _ => Knows (AddedTo width size 0) := by
  refine (knows_input stable_true (by decide)).bind fun _ => ?_
  have hleft := stable_true.and (stable_valued "X" width (inputWord "X" width))
  apply (knows_input hleft (by decide)).weaken
  rintro - d nets ⟨⟨-, hleft⟩, hright⟩
  exact ⟨hleft, hright, fun i hi => absurd hi (Nat.not_lt_zero i)⟩

/-- What is known of an adder when it is described. -/
theorem knows_build (hwidth : 1 ≤ width) :
    Triple lib h (fun _ => True) (Knows fun _ _ => True) (build width device) fun _ op =>
      Knows (fun _ nets => Valued nets "R" width fun env => sumWord width env % 2 ^ width) op ∧
      (segmentSize device width < width → Knows (AddsSegments width (segmentSize device width)) op) := by
  have hsize := segmentSize_pos device hwidth
  refine (knows_inputs (segmentSize device width)).bind fun _ => ?_
  dsimp only
  split
  next hle =>
    exact knows_whole.conseq (fun _ hop => hop) fun _ op hop =>
      ⟨hop.mono fun d nets hknown => hknown.2, fun hlt => absurd hle (Nat.not_le_of_lt hlt)⟩
  next hlt =>
    refine (knows_segmented hsize (Segment.count_pos hwidth hsize)).conseq (fun _ hop => hop)
      fun _ op hop => ⟨hop.mono fun d nets hknown => ?_, fun _ => hop⟩
    obtain ⟨parts, -, -, hvalued⟩ := hknown
    exact hvalued

end Kind.Adder

open Kind Adder Operator in
/-- An adder of any width, for any device on which it can be described, adds. None of its
signals is wider than its words. -/
theorem Library.adder_adds (device : Device) {width : Nat} (hwidth : 1 ≤ width) (lib : Library)
    (handle : Handle) (name : String) (period : Float) (pipelined : Bool) :
    let o := run ((adder width).design device) ⟨lib, blank handle name period pipelined⟩
    o.result = .ok () → Adds device width o.state.operator := by
  intro o hresult
  have hbuild := (@knows_build lib handle device width hwidth).wp_run rfl
    (knows_blank handle name period pipelined)
  obtain ⟨-, -, hknows, hsplit⟩ := hbuild.of_ok hresult
  constructor
  · intro env hx hy
    obtain ⟨nets, hsettled, hvalued⟩ := hknows
    refine ⟨nets env, (hsettled env).settles, ?_⟩
    have hat := hvalued env
    simp only [sumWord, inputWord, Nat.mod_eq_of_lt hx, Nat.mod_eq_of_lt hy] at hat
    exact hat
  · intro hlt
    obtain ⟨nets, hsettled, hknown⟩ := hsplit hlt
    exact ⟨nets, fun env => (hsettled env).settles,
      AddsSegments.split (segmentSize_pos device hwidth) hknown⟩

/-- A device on which two bits and a carry take longer than the period. -/
def slowCarry : Device where
  frequencyHz := 5e8
  pipelined := true
  lutDelay := 1
  adderDelay width := if width ≤ 2 then 1 else 3
  wireDelay _ := 0
  lutInputs := 4

/-- An adder of three bits in three segments. -/
theorem adder_adds_by_bits :
    let o := Library.run ((Kind.adder 3).design slowCarry)
      ⟨.ofSettings {}, .blank 0 "IntAdder_3" slowCarry.period true⟩
    Kind.Adder.segmentSize slowCarry 3 = 1 ∧ o.result = .ok () ∧
      Kind.Adder.Adds slowCarry 3 o.state.operator := by
  have hsize : Kind.Adder.segmentSize slowCarry 3 = 1 := by
    rw [Kind.Adder.segmentSize, if_pos (by rfl), Kind.Adder.grow, if_neg (by decide)]
  have hwork : Kind.Adder.work 3 slowCarry = [1, 1, 1] := by
    unfold Kind.Adder.work
    rw [hsize]
    decide
  obtain ⟨t, ht, -⟩ := (@Timeline.accrueAll_start [1, 1, 1] slowCarry.period (by decide) (by decide)
    (by decide) (by decide)).1 (by decide)
  rw [← hwork] at ht
  have hresult := Library.run_of_does (Kind.does_adder 3 slowCarry) (.ofSettings {}) 0 "IntAdder_3" ht
  exact ⟨hsize, hresult, Library.adder_adds slowCarry (by decide) _ 0 "IntAdder_3" _ true hresult⟩

end Retime

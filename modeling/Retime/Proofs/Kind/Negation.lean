import Mathlib.Data.Nat.Bitwise
import Retime.Proofs.Kind.Multiplication

/-! # Negation of floating-point words

The fields of a floating-point word lie one below the other and leave out no bit. A word is put
together again from selects of its fields; with the sign complemented, it is the word with that
one bit inverted.
-/

namespace Retime

open Retime.Action Retime.Operator Retime.Verilog

/-! ## Ranges -/

namespace BitRange

/-- The positions of a range, from the highest one down. -/
def positions (r : BitRange) : List Nat :=
  (List.range' r.low (r.high + 1 - r.low)).reverse

/-- The select of a range of an identifier. -/
def expr (r : BitRange) (identifier : String) : Expr :=
  if r.high = r.low then .bit identifier r.high else .slice identifier r.high r.low

/-- What a word has in a range. -/
def of (r : BitRange) (v : Nat) : Nat :=
  v / 2 ^ r.low % 2 ^ (r.high - r.low + 1)

theorem positions_eq {r : BitRange} {low size : Nat} (hlow : r.low = low)
    (hhigh : r.high + 1 = low + size) : r.positions = (List.range' low size).reverse := by
  rw [positions, hlow, hhigh, Nat.add_sub_cancel_left]

theorem text_expr (r : BitRange) (identifier : String) :
    (r.expr identifier).text = r.select identifier := by
  unfold expr select
  split <;> rfl

theorem legible_expr {identifier : String} (r : BitRange) (hname : isName identifier.toList = true) :
    Legible .primary (r.expr identifier) := by
  unfold expr
  split
  · exact Legible.bit hname _
  · exact Legible.slice hname _ _

end BitRange

theorem Valued.select {nets : Environment → List Net} {a : String} {width : Nat}
    {v : Environment → Nat} (h : Valued nets a width v) {r : BitRange} (hle : r.low ≤ r.high)
    (hlt : r.high < width) :
    EvaluatesAlone nets (r.expr a) (r.high - r.low + 1) fun env => r.of (v env) := by
  unfold BitRange.expr
  split
  next hone =>
    have hbit := (h.bit hlt).alone fun env => Nat.mod_lt _ (by decide)
    simpa [BitRange.of, hone] using hbit
  · exact (h.slice hle hlt).alone fun env => Nat.mod_lt _ (Nat.two_pow_pos _)

/-! ## Fields -/

namespace FloatField

/-- The fields, the most significant one first. -/
def all : List FloatField :=
  [exception, sign, exponent, fraction]

/-- Where a field lies in a floating-point word. -/
def range (we wf : Nat) : FloatField → BitRange
  | exception => ⟨we + wf + 2, we + wf + 1⟩
  | sign => ⟨we + wf, we + wf⟩
  | exponent => ⟨we + wf - 1, wf⟩
  | fraction => ⟨wf - 1, 0⟩

variable {we wf : Nat}

theorem fieldRange?_float (f : FloatField) :
    (Width.float we wf).fieldRange? f = some (f.range we wf) := by
  cases f <;> rfl

theorem low_le_high (hwe : 1 ≤ we) (f : FloatField) :
    (f.range we wf).low ≤ (f.range we wf).high := by
  cases f <;> simp only [range] <;> omega

theorem high_lt_bits (f : FloatField) : (f.range we wf).high < (Width.float we wf).bits := by
  cases f <;> simp only [range, Width.bits] <;> omega

theorem mapM_fieldRange? :
    all.mapM (Width.float we wf).fieldRange? = some (all.map (range we wf)) :=
  rfl

/-- The fields cover the positions of a word, each of them once, from its top bit down. -/
theorem flatMap_positions (hwe : 1 ≤ we) (hwf : 1 ≤ wf) :
    (all.map (range we wf)).flatMap BitRange.positions =
      (List.range (Width.float we wf).bits).reverse := by
  have hexception : (range we wf .exception).positions = (List.range' (wf + we + 1) 2).reverse :=
    BitRange.positions_eq (by simp only [range]; omega) (by simp only [range]; omega)
  have hsign : (range we wf .sign).positions = (List.range' (wf + we) 1).reverse :=
    BitRange.positions_eq (by simp only [range]; omega) (by simp only [range]; omega)
  have hexponent : (range we wf .exponent).positions = (List.range' wf we).reverse :=
    BitRange.positions_eq rfl (by simp only [range]; omega)
  have hfraction : (range we wf .fraction).positions = (List.range' 0 wf).reverse :=
    BitRange.positions_eq rfl (by simp only [range]; omega)
  have hbits : (Width.float we wf).bits = wf + we + 1 + 2 := by
    simp only [Width.bits]
    omega
  rw [hbits, List.range_eq_range', ← List.range'_append_1, ← List.range'_append_1,
    ← List.range'_append_1]
  simp [all, hexception, hsign, hexponent, hfraction]

theorem pairwise_disjoint (hwe : 1 ≤ we) (hwf : 1 ≤ wf) :
    (all.map (range we wf)).Pairwise fun r r' => r.positions.Disjoint r'.positions := by
  have hnodup : ((all.map (range we wf)).flatMap BitRange.positions).Nodup := by
    rw [flatMap_positions hwe hwf, List.nodup_reverse]
    exact List.nodup_range
  exact (List.nodup_flatMap.mp hnodup).2

/-- A word below the sign is made up of its exponent and its fraction. -/
theorem low_eq (v : Nat) (hwe : 1 ≤ we) (hwf : 1 ≤ wf) :
    (range we wf .exponent).of v * 2 ^ wf + (range we wf .fraction).of v = v % 2 ^ (we + wf) := by
  have hexponent : we + wf - 1 - wf + 1 = we := by omega
  have hfraction : wf - 1 - 0 + 1 = wf := by omega
  simp only [range, BitRange.of, hexponent, hfraction]
  rw [Nat.pow_zero, Nat.div_one, Nat.add_comm we, Nat.pow_add, Nat.mod_mul, Nat.mul_comm (2 ^ wf)]
  exact Nat.add_comm _ _

/-- A word with another sign differs in one bit. -/
theorem flip_eq {v : Nat} (hwe : 1 ≤ we) (hwf : 1 ≤ wf) (hv : v < 2 ^ (Width.float we wf).bits) :
    (range we wf .exception).of v * 2 ^ (1 + (we + wf)) +
      ((1 - (range we wf .sign).of v) * 2 ^ (we + wf) +
        ((range we wf .exponent).of v * 2 ^ wf + (range we wf .fraction).of v)) =
      v ^^^ 2 ^ (we + wf) := by
  rw [low_eq v hwe hwf]
  simp only [Width.bits] at hv
  -- above the low bits there are three, of which the last one is the sign
  have hexception : (range we wf .exception).of v = v / 2 ^ (we + wf) / 2 % 4 := by
    simp [range, BitRange.of, Nat.pow_succ, Nat.div_div_eq_div_mul]
  have hsign : (range we wf .sign).of v = v / 2 ^ (we + wf) % 2 := by
    simp [range, BitRange.of]
  rw [hexception, hsign]
  generalize hk : we + wf = k at hv ⊢
  have hhigh : (v ^^^ 2 ^ k) / 2 ^ k = v / 2 ^ k ^^^ 1 := by
    rw [Nat.xor_div_two_pow, Nat.div_self (Nat.two_pow_pos k)]
  have hlow : (v ^^^ 2 ^ k) % 2 ^ k = v % 2 ^ k := by
    rw [Nat.xor_mod_two_pow, Nat.mod_self, Nat.xor_zero]
  have htop : v / 2 ^ k < 8 := by
    rw [Nat.div_lt_iff_lt_mul (Nat.two_pow_pos k)]
    calc v < 2 ^ (3 + we + wf) := hv
      _ = 8 * 2 ^ k := by rw [← hk, Nat.add_assoc, Nat.pow_add]
  have hflip : ∀ q < 8, q / 2 % 4 * 2 + (1 - q % 2) = q ^^^ 1 := by decide
  calc v / 2 ^ k / 2 % 4 * 2 ^ (1 + k) + ((1 - v / 2 ^ k % 2) * 2 ^ k + v % 2 ^ k)
      = (v / 2 ^ k / 2 % 4 * 2 + (1 - v / 2 ^ k % 2)) * 2 ^ k + v % 2 ^ k := by
        rw [Nat.pow_add, Nat.pow_one]
        ring
    _ = (v ^^^ 2 ^ k) / 2 ^ k * 2 ^ k + (v ^^^ 2 ^ k) % 2 ^ k := by
        rw [hflip _ htop, hhigh, hlow]
    _ = v ^^^ 2 ^ k := Nat.div_add_mod' _ _

end FloatField

/-! ## Reading a field -/

namespace Build

variable {F : Facts} {lib : Library} {h : Handle} {name : String} {value : Environment → Nat}

/-- The answer selects the field of an identifier with the value of the signal. -/
theorem knows_consumeField {w : Width} {field : FloatField} {range : BitRange} (hF : F.Stable)
    (hvalue : ∀ d nets, F d nets → Valued nets name w.bits value)
    (hwidth : ∀ d nets, F d nets → d.HasWidth name w) (hrange : w.fieldRange? field = some range) :
    Triple lib h (fun _ => True) (Knows F) (ask (.consumeField name field)) fun text op =>
      ∃ a, text = range.select a ∧
        Knows (fun d nets => F d nets ∧ Identifies name w.bits value a d nets) op := by
  refine triple_answer rfl fun op _ hop => ⟨hop.unfinished, ?_⟩
  have ⟨nets, _, hknown⟩ := hop
  exact wp_consumeField (hwidth _ _ hknown) hrange
    ((hop.wp_consume hF hvalue).mono (fun a _ hop' => ⟨a, rfl, hop'⟩) fun _ _ _ => trivial)

end Build

/-! ## Negated words -/

namespace Kind

open Build

variable {lib : Library} {h : Handle} {we wf : Nat} {d : Dataflow} {nets : Environment → List Net}

namespace FloatNegation

/-- Selects of the four fields, with the sign complemented. -/
def negated (we wf : Nat) (exc sign exp frac : String) : Expr :=
  .concat [(FloatField.range we wf .exception).expr exc, .not ((FloatField.range we wf .sign).expr sign),
    (FloatField.range we wf .exponent).expr exp, (FloatField.range we wf .fraction).expr frac]

/-- The word with its sign inverted. -/
def flipped (we wf : Nat) (env : Environment) : Nat :=
  inputWord "X" (Width.float we wf).bits env ^^^ 2 ^ (we + wf)

/-- The identifier carries the word. -/
abbrev IsWord (we wf : Nat) (a : String) : Facts :=
  Identifies "X" (Width.float we wf).bits (inputWord "X" (Width.float we wf).bits) a

theorem legible_negated {exc sign exp frac : String} (hexc : IsWord we wf exc d nets)
    (hsign : IsWord we wf sign d nets) (hexp : IsWord we wf exp d nets)
    (hfrac : IsWord we wf frac d nets) : Legible .sum (negated we wf exc sign exp frac) := by
  refine (Legible.concat (List.cons_ne_nil _ _) fun e he => ?_).factor.term
  simp only [List.mem_cons, List.not_mem_nil, or_false] at he
  rcases he with rfl | rfl | rfl | rfl
  · exact (BitRange.legible_expr _ hexc.named).factor.term
  · exact (BitRange.legible_expr _ hsign.named).not.factor.term
  · exact (BitRange.legible_expr _ hexp.named).factor.term
  · exact (BitRange.legible_expr _ hfrac.named).factor.term

theorem evaluates_field (hwe : 1 ≤ we) {a : String} (ha : IsWord we wf a d nets) (f : FloatField) :
    EvaluatesAlone nets ((f.range we wf).expr a)
      ((f.range we wf).high - (f.range we wf).low + 1)
      fun env => (f.range we wf).of (inputWord "X" (Width.float we wf).bits env) :=
  ha.valued.select (FloatField.low_le_high hwe f) (FloatField.high_lt_bits f)

theorem evaluates_negated (hwe : 1 ≤ we) (hwf : 1 ≤ wf) {exc sign exp frac : String}
    (hexc : IsWord we wf exc d nets) (hsign : IsWord we wf sign d nets)
    (hexp : IsWord we wf exp d nets) (hfrac : IsWord we wf frac d nets) :
    Evaluates nets (negated we wf exc sign exp frac) (Width.float we wf).bits (flipped we wf) := by
  have hfraction := (evaluates_field hwe hfrac .fraction).part (evaluatesParts_nil nets)
  have hexponent := (evaluates_field hwe hexp .exponent).part hfraction
  have hcomplement := (evaluates_field hwe hsign .sign).not.part hexponent
  have hall := ((evaluates_field hwe hexc .exception).part hcomplement).concat
  have hfractionBits : (FloatField.range we wf .fraction).high -
      (FloatField.range we wf .fraction).low + 1 = wf := by simp only [FloatField.range]; omega
  have hexponentBits : (FloatField.range we wf .exponent).high -
      (FloatField.range we wf .exponent).low + 1 = we := by simp only [FloatField.range]; omega
  have hsignBits : (FloatField.range we wf .sign).high -
      (FloatField.range we wf .sign).low + 1 = 1 := by simp only [FloatField.range]; omega
  have hexceptionBits : (FloatField.range we wf .exception).high -
      (FloatField.range we wf .exception).low + 1 = 2 := by simp only [FloatField.range]; omega
  simp only [hfractionBits, hexponentBits, hsignBits, hexceptionBits] at hall
  intro env
  obtain ⟨hwidth, hvalue⟩ := hall env
  have hlt : inputWord "X" (Width.float we wf).bits env < 2 ^ (Width.float we wf).bits :=
    Nat.mod_lt _ (Nat.two_pow_pos _)
  refine ⟨hwidth.trans (congrArg some ?_), hvalue.trans (congrArg some ?_)⟩
  · simp only [Width.bits]
    omega
  · simpa [flipped] using FloatField.flip_eq hwe hwf hlt

theorem flipped_lt (env : Environment) :
    flipped we wf env < 2 ^ (Width.float we wf).bits := by
  refine Nat.xor_lt_two_pow (Nat.mod_lt _ (Nat.two_pow_pos _)) (Nat.pow_lt_pow_right (by decide) ?_)
  simp only [Width.bits]
  omega

theorem text_negated (exc sign exp frac : String) : (negated we wf exc sign exp frac).text =
    (Expr.concat [.ident ((FloatField.range we wf .exception).select exc),
      .not (.ident ((FloatField.range we wf .sign).select sign)),
      .ident ((FloatField.range we wf .exponent).select exp),
      .ident ((FloatField.range we wf .fraction).select frac)]).text := by
  simp only [negated, Expr.text, Expr.texts, BitRange.text_expr]

/-- The word is there. -/
def Given (we wf : Nat) : Facts := fun d nets =>
  Valued nets "X" (Width.float we wf).bits (inputWord "X" (Width.float we wf).bits) ∧
    d.HasWidth "X" (.float we wf)

theorem stable_given (we wf : Nat) : (Given we wf).Stable :=
  (stable_valued _ _ _).and (stable_hasWidth _ _)

theorem stable_isWord (we wf : Nat) (a : String) : Facts.Stable (IsWord we wf a) :=
  stable_identifies _ _ _ _

theorem knows_given (we wf : Nat) : Triple lib h (fun _ => True) (Knows fun _ _ => True)
    (call (.input "X" (.float we wf))) fun _ => Knows (Given we wf) :=
  (knows_port stable_true (by decide)).weaken fun _ _ _ hknown => hknown.2

theorem knows_field {F : Facts} (f : FloatField) (hF : F.Stable)
    (hgiven : ∀ d nets, F d nets → Given we wf d nets) :
    Triple lib h (fun _ => True) (Knows F) (ask (.consumeField "X" f)) fun text op =>
      ∃ a, text = (f.range we wf).select a ∧
        Knows (fun d nets => F d nets ∧ IsWord we wf a d nets) op :=
  knows_consumeField hF (fun d nets hknown => (hgiven d nets hknown).1)
    (fun d nets hknown => (hgiven d nets hknown).2) (FloatField.fieldRange?_float f)

/-- What is known of an operator that flips the sign. -/
def Negates (we wf : Nat) : Facts := fun d nets =>
  ∃ exc sign exp frac, (∀ a ∈ [exc, sign, exp, frac], IsWord we wf a d nets) ∧
    d.Declares "R" (Width.float we wf).bits (negated we wf exc sign exp frac) ∧
    Evaluates nets (negated we wf exc sign exp frac) (Width.float we wf).bits (flipped we wf) ∧
    Valued nets "R" (Width.float we wf).bits (flipped we wf)

end FloatNegation

open FloatNegation

theorem knows_floatNegation (hwe : 1 ≤ we) (hwf : 1 ≤ wf) (device : Device) :
    ∃ m : Build Unit, (floatNegation we wf).design device = m.design ∧
      Triple lib h (fun _ => True) (Knows fun _ _ => True) m fun _ => Knows (Negates we wf) := by
  dsimp only [floatNegation]
  refine ⟨_, rfl, Triple.bind (knows_given we wf) fun _ => ?_⟩
  refine (knows_accrue device.lutDelay).bind fun _ => ?_
  have hgiven := stable_given we wf
  refine (knows_field .exception hgiven fun _ _ hknown => hknown).bind fun _ =>
    triple_exists fun exc => triple_and fun hexc => ?_
  have hfirst := hgiven.and (stable_isWord we wf exc)
  refine (knows_field .sign hfirst fun _ _ hknown => hknown.1).bind fun _ =>
    triple_exists fun sign => triple_and fun hsign => ?_
  have hsecond := hfirst.and (stable_isWord we wf sign)
  refine (knows_field .exponent hsecond fun _ _ hknown => hknown.1.1).bind fun _ =>
    triple_exists fun exp => triple_and fun hexp => ?_
  have hthird := hsecond.and (stable_isWord we wf exp)
  refine (knows_field .fraction hthird fun _ _ hknown => hknown.1.1.1).bind fun _ =>
    triple_exists fun frac => triple_and fun hfrac => ?_
  have hfourth := hthird.and (stable_isWord we wf frac)
  rw [hexc, hsign, hexp, hfrac, ← text_negated]
  apply knows_of (P := Legible .sum (negated we wf exc sign exp frac))
  · rintro d nets ⟨⟨⟨⟨-, hexc⟩, hsign⟩, hexp⟩, hfrac⟩
    exact legible_negated hexc hsign hexp hfrac
  intro hlegible
  apply (knows_result hfourth (fun d nets hknown => evaluates_negated hwe hwf
    hknown.1.1.1.2 hknown.1.1.2 hknown.1.2 hknown.2) hlegible (by decide)).weaken
  rintro - d nets ⟨⟨⟨⟨⟨-, hexc⟩, hsign⟩, hexp⟩, hfrac⟩, hvalued, hdeclares⟩
  refine ⟨exc, sign, exp, frac, ?_, hdeclares, evaluates_negated hwe hwf hexc hsign hexp hfrac,
    hvalued.of_lt flipped_lt⟩
  simp only [List.mem_cons, List.not_mem_nil, or_false]
  rintro a (rfl | rfl | rfl | rfl)
  · exact hexc
  · exact hsign
  · exact hexp
  · exact hfrac

/-- What it means that an operator flips the sign of a floating-point word. -/
structure FlipsSign (we wf : Nat) (op : Operator) : Prop where
  word : ∀ env : Environment, env.word "X" < 2 ^ (Width.float we wf).bits →
    ∃ nets, op.settle env = some nets ∧
      Holds nets "R" (Width.float we wf).bits (env.word "X" ^^^ 2 ^ (we + wf))
  /-- The result is put together of the fields of what carries the word. -/
  fields : ∃ nets : Environment → List Net, (∀ env, op.settle env = some (nets env)) ∧
    ∃ exc sign exp frac, (∀ a ∈ [exc, sign, exp, frac], IsWord we wf a op.flow nets) ∧
      op.flow.Declares "R" (Width.float we wf).bits (negated we wf exc sign exp frac) ∧
      Evaluates nets (negated we wf exc sign exp frac) (Width.float we wf).bits (flipped we wf)

end Kind

open Kind in
/-- The fields of a floating-point word tile it, and the negation built of them, on any device on
which it can be described, inverts the sign alone. A word has `3 + we + wf` bits; where widths have
32 bits, this number has to fit them. -/
theorem Library.float_negation_flips_sign (device : Device) {we wf : Nat} (hwe : 1 ≤ we)
    (hwf : 1 ≤ wf) (lib : Library) (handle : Handle) (name : String) (period : Float)
    (pipelined : Bool) :
    (∃ ranges, FloatField.all.mapM (Width.float we wf).fieldRange? = some ranges ∧
      (∀ r ∈ ranges, r.low ≤ r.high) ∧
      ranges.Pairwise (fun r r' => r.positions.Disjoint r'.positions) ∧
      ranges.flatMap BitRange.positions = (List.range (Width.float we wf).bits).reverse) ∧
    let o := run ((floatNegation we wf).design device) ⟨lib, blank handle name period pipelined⟩
    o.result = .ok () → FlipsSign we wf o.state.operator := by
  constructor
  · refine ⟨_, FloatField.mapM_fieldRange?, ?_, FloatField.pairwise_disjoint hwe hwf,
      FloatField.flatMap_positions hwe hwf⟩
    simp only [List.mem_map]
    rintro _ ⟨f, -, rfl⟩
    exact FloatField.low_le_high hwe f
  intro o hresult
  obtain ⟨m, hm, htriple⟩ := @knows_floatNegation lib handle we wf hwe hwf device
  have hbuild := htriple.wp_run rfl (knows_blank handle name period pipelined)
  rw [← hm] at hbuild
  obtain ⟨-, -, nets, hsettled, exc, sign, exp, frac, hwords, hdeclares, hevaluates, hvalued⟩ :=
    hbuild.of_ok hresult
  constructor
  · intro env hx
    refine ⟨nets env, (hsettled env).settles, ?_⟩
    have hat := hvalued env
    simp only [FloatNegation.flipped, inputWord, Nat.mod_eq_of_lt hx] at hat
    exact hat
  · exact ⟨nets, fun env => (hsettled env).settles, exc, sign, exp, frac, hwords, hdeclares,
      hevaluates⟩

/-- The narrowest fields: a word of five bits, whose exponent and fraction have one bit each. -/
theorem float_negation_flips_narrow_words :
    let o := Library.run ((Kind.floatNegation 1 1).design evenCarry)
      ⟨.ofSettings {}, .blank 0 "FpNegate_1_1" evenCarry.period true⟩
    o.result = .ok () ∧ Kind.FlipsSign 1 1 o.state.operator := by
  obtain ⟨t, ht, -⟩ := (@Timeline.accrueAll_start [1] evenCarry.period (by decide) (by decide)
    (by decide) (by decide)).1 (by decide)
  have hdoes := Kind.does_floatNegation 1 1 evenCarry
  have hresult := Library.run_of_does hdoes (.ofSettings {}) 0 "FpNegate_1_1" ht
  exact ⟨hresult, (Library.float_negation_flips_sign evenCarry (by decide) (by decide) _ 0
    "FpNegate_1_1" _ true).2 hresult⟩

end Retime

import Mathlib
import Retime.Proofs.Binary64.Sum

/-! # Monotone arithmetic of binary64 numbers

Rounding to nearest keeps the order of the exact values: a larger value is rounded at an
exponent that is no smaller, and at the same exponent to a mantissa that is no smaller. So
sums and products of numbers that are not negative grow with their operands.
-/

namespace Retime.Binary64

open Float.Model UnpackedFloat

/-! ## Rounding a quotient by a power of two -/

/-- A mantissa with its two residual bits, in quarters. -/
def weight (x : ExtendedMantissa) : Nat :=
  4 * x.mantissa + 2 * x.roundBit.toNat + x.stickyBit.toNat

theorem weight_shiftRightOne_mono {x y : ExtendedMantissa} (h : weight x ≤ weight y) :
    weight x.shiftRightOne ≤ weight y.shiftRightOne := by
  have hweight : ∀ z : ExtendedMantissa, weight z.shiftRightOne =
      2 * z.mantissa + (z.roundBit || z.stickyBit).toNat := by
    rintro ⟨m, r, s⟩
    have hbit : (m % 2 != 0).toNat = m % 2 := by
      rcases Nat.mod_two_eq_zero_or_one m with hm | hm <;> rw [hm] <;> rfl
    simp only [weight, ExtendedMantissa.shiftRightOne, hbit]
    omega
  rw [hweight, hweight]
  obtain ⟨m, r, s⟩ := x
  obtain ⟨n, u, v⟩ := y
  simp only [weight] at h ⊢
  cases r <;> cases s <;> cases u <;> cases v <;> simp at h ⊢ <;> omega

theorem roundedMantissa_mono {x y : ExtendedMantissa} (h : weight x ≤ weight y) :
    x.roundedMantissa ≤ y.roundedMantissa := by
  obtain ⟨m, r, s⟩ := x
  obtain ⟨n, u, v⟩ := y
  simp only [weight] at h
  unfold ExtendedMantissa.roundedMantissa ExtendedMantissa.accuracy
  cases r <;> cases s <;> cases u <;> cases v <;>
    simp only [Accuracy.roundToNearestEven, Bool.toNat_true, Bool.toNat_false] at h ⊢ <;> omega

theorem shiftRight_succ (x : ExtendedMantissa) (k : Nat) :
    x >>> (k + 1) = (x >>> k).shiftRightOne :=
  rfl

theorem shiftRight_succ' (x : ExtendedMantissa) (k : Nat) :
    x >>> (k + 1) = x.shiftRightOne >>> k := by
  induction k with
  | zero => rfl
  | succ k ih => rw [shiftRight_succ, ih, shiftRight_succ]

/-- The quotient of `m` by `2 ^ k`, rounded to nearest and at ties to even. -/
def rounded (m k : Nat) : Nat :=
  ((⟨m, false, false⟩ : ExtendedMantissa) >>> k).roundedMantissa

theorem rounded_mono {m n : Nat} (h : m ≤ n) (k : Nat) : rounded m k ≤ rounded n k := by
  apply roundedMantissa_mono
  induction k with
  | zero =>
      show 4 * m + 0 + 0 ≤ 4 * n + 0 + 0
      omega
  | succ k ih =>
      rw [shiftRight_succ, shiftRight_succ]
      exact weight_shiftRightOne_mono ih

theorem rounded_scale (m k j : Nat) : rounded (m * 2 ^ j) (k + j) = rounded m k := by
  induction j with
  | zero => simp
  | succ j ih =>
      have hhalf : (⟨m * 2 ^ (j + 1), false, false⟩ : ExtendedMantissa).shiftRightOne =
          ⟨m * 2 ^ j, false, false⟩ := by
        simp [ExtendedMantissa.shiftRightOne, Nat.pow_succ, ← Nat.mul_assoc]
      rw [← ih]
      unfold rounded
      rw [← Nat.add_assoc, shiftRight_succ', hhalf]

theorem rounded_bounds (m k : Nat) : m / 2 ^ k ≤ rounded m k ∧ rounded m k ≤ m / 2 ^ k + 1 := by
  have h := roundedMantissa_bounds ((⟨m, false, false⟩ : ExtendedMantissa) >>> k)
  rw [mantissa_shiftRight] at h
  exact h

/-! ## Rounding a value -/

/-- A positive value with a rounded mantissa, which may have grown out of the format by one. -/
def settle (r : Nat) (e : ℤ) : UnpackedFloat :=
  if h : r = 0 then .zero .positive
  else if r < 2 ^ 53 then .finite .positive r e (Nat.pos_of_ne_zero h)
  else .finite .positive (2 ^ 52) (e + 1) (by norm_num)

/-- What rounding at an exponent can yield. -/
structure Settled (r : Nat) (e : ℤ) : Prop where
  least : -1074 ≤ e
  le : r ≤ 2 ^ 53
  full : 2 ^ 52 ≤ r ∨ e = -1074

theorem settled_rounded {m k : Nat} {e : ℤ} (hm : 0 < m) (hk : e + k = roundingExponent m e) :
    Settled (rounded m k) (e + k) := by
  obtain ⟨hhigh, hfull⟩ := truncated_bounds hm hk
  obtain ⟨hlow, hup⟩ := rounded_bounds m k
  exact ⟨hk ▸ le_max_right _ _, by omega, hfull.imp_left (·.trans hlow)⟩

theorem roundWithAccuracy_eq {m k : Nat} {e : ℤ} (hm : 0 < m)
    (hk : e + k = roundingExponent m e) :
    roundWithAccuracy Format.binary64 .positive m e .exact = settle (rounded m k) (e + k) := by
  obtain ⟨hleast, hle, -⟩ := settled_rounded hm hk
  have hfirst : shiftToTargetExponent Format.binary64 m e .exact =
      ((⟨m, false, false⟩ : ExtendedMantissa) >>> k, e + k) := by
    have hshift : (roundingExponent m e - e).toNat = k := by omega
    unfold shiftToTargetExponent shiftToExponent
    rw [targetExponent_eq]
    dsimp only
    rw [hshift]
    rfl
  have hsecond : (shiftToTargetExponent Format.binary64 (rounded m k) (e + k) .exact).1.mantissa =
      (if rounded m k < 2 ^ 53 then rounded m k else 2 ^ 52) ∧
      (shiftToTargetExponent Format.binary64 (rounded m k) (e + k) .exact).2 =
        (if rounded m k < 2 ^ 53 then e + k else e + k + 1) := by
    by_cases hr : rounded m k < 2 ^ 53
    · rw [if_pos hr, if_pos hr]
      exact shift_of_lt hr hleast
    · have hr' : rounded m k = 2 ^ 53 := by omega
      rw [if_neg hr, if_neg hr, hr']
      exact shift_of_carry hleast
  unfold roundWithAccuracy settle
  rw [hfirst]
  dsimp only
  change (shiftToTargetExponent Format.binary64 (ExtendedMantissa.roundedMantissa _) _ _).1.mantissa =
    _ ∧ (shiftToTargetExponent Format.binary64 (ExtendedMantissa.roundedMantissa _) _ _).2 = _
    at hsecond
  generalize shiftToTargetExponent Format.binary64 (ExtendedMantissa.roundedMantissa _) _ _ =
    second at hsecond ⊢
  obtain ⟨⟨mantissa, round, sticky⟩, exponent⟩ := second
  obtain ⟨rfl, rfl⟩ := hsecond
  by_cases hr : rounded m k < 2 ^ 53
  · simp only [if_pos hr]
  · have hzero : rounded m k ≠ 0 := by omega
    simp only [if_neg hr, hzero, dif_neg, not_false_eq_true]
    exact dif_neg (by norm_num)

/-- Rounding does not depend on how a value is written. -/
theorem roundingExponent_scale {m : Nat} (hm : 0 < m) (e : ℤ) (j : Nat) :
    roundingExponent (m * 2 ^ j) (e - j) = roundingExponent m e := by
  have hlog : (m * 2 ^ j).log2 = m.log2 + j := by
    have hm' := Nat.pos_iff_ne_zero.mp hm
    obtain ⟨hlow, hhigh⟩ := (Nat.log2_eq_iff hm').mp rfl
    rw [Nat.log2_eq_iff (Nat.pos_iff_ne_zero.mp (Nat.mul_pos hm (Nat.two_pow_pos j))),
      Nat.pow_add, Nat.add_right_comm, Nat.pow_add]
    exact ⟨Nat.mul_le_mul_right _ hlow, Nat.mul_lt_mul_of_pos_right hhigh (Nat.two_pow_pos j)⟩
  unfold roundingExponent
  rw [hlog]
  push_cast
  congr 1
  ring

theorem roundWithAccuracy_scale {m : Nat} {e : ℤ} (hm : 0 < m) (he : e ≤ roundingExponent m e)
    (j : Nat) : roundWithAccuracy Format.binary64 .positive (m * 2 ^ j) (e - j) .exact =
      roundWithAccuracy Format.binary64 .positive m e .exact := by
  obtain ⟨k, hk⟩ : ∃ k : Nat, e + k = roundingExponent m e :=
    ⟨(roundingExponent m e - e).toNat, by omega⟩
  have hscaled : (e - j) + ((k + j : Nat) : ℤ) = roundingExponent (m * 2 ^ j) (e - j) := by
    rw [roundingExponent_scale hm, ← hk]
    push_cast
    ring
  rw [roundWithAccuracy_eq hm hk,
    roundWithAccuracy_eq (Nat.mul_pos hm (Nat.two_pow_pos j)) hscaled, rounded_scale]
  congr 1
  push_cast
  ring

/-! ## The order of rounded values -/

/-- Where a positive value lies in the order once it is packed. -/
def place (m : Nat) (e : ℤ) : ℤ ×ₗ ℤ ×ₗ ℤ :=
  if 971 < e then toLex (2, toLex (0, 0)) else toLex (1, toLex (e, (m : ℤ)))

/-- Where a settled value lies. -/
def height (r : Nat) (e : ℤ) : ℤ ×ₗ ℤ ×ₗ ℤ :=
  if r = 0 then toLex (0, toLex (0, 0)) else if r < 2 ^ 53 then place r e else place (2 ^ 52) (e + 1)

theorem rankOf_pack {m : Nat} {e : ℤ} (hm : 0 < m) (hfits : Fits m e) :
    rankOf (Float.Model.pack (.finite .positive m e hm)).unpack = some (place m e) := by
  unfold place
  by_cases he : 971 < e
  · rw [unpack_pack_overflow hm he, if_pos he]
    rfl
  · rw [unpack_pack_finite hm hfits (not_lt.mp he), if_neg he]
    rfl

theorem rankOf_settle {r : Nat} {e : ℤ} (h : Settled r e) :
    rankOf (Float.Model.pack (settle r e)).unpack = some (height r e) := by
  obtain ⟨hleast, hle, hfull⟩ := h
  unfold settle height
  by_cases hzero : r = 0
  · rw [dif_pos hzero, if_pos hzero]
    decide
  rw [dif_neg hzero, if_neg hzero]
  by_cases hr : r < 2 ^ 53
  · rw [if_pos hr, if_pos hr]
    exact rankOf_pack _ ⟨Nat.pos_of_ne_zero hzero, hr, hleast, hfull⟩
  · rw [if_neg hr, if_neg hr]
    exact rankOf_pack _ ⟨by norm_num, by norm_num, by omega, .inl (Nat.le_refl _)⟩

theorem place_mono {m n : Nat} {e f : ℤ} (h : e < f ∨ e = f ∧ m ≤ n) : place m e ≤ place n f := by
  unfold place
  split <;> split
  · exact le_rfl
  · omega
  · exact Prod.Lex.toLex_le_toLex.mpr (.inl (by norm_num))
  · refine Prod.Lex.toLex_le_toLex.mpr (.inr ⟨rfl, Prod.Lex.toLex_le_toLex.mpr ?_⟩)
    exact h.imp_right fun h => ⟨h.1, Int.ofNat_le.mpr h.2⟩

theorem zero_le_place (m : Nat) (e : ℤ) : toLex (0, toLex (0, 0)) ≤ place m e := by
  unfold place
  split <;> exact Prod.Lex.toLex_le_toLex.mpr (.inl (by norm_num))

theorem zero_le_height (r : Nat) (e : ℤ) : toLex (0, toLex (0, 0)) ≤ height r e := by
  unfold height
  split
  · exact le_rfl
  · split <;> exact zero_le_place _ _

theorem height_mono {r r' : Nat} {e e' : ℤ} (h : Settled r e) (h' : Settled r' e')
    (hle : e < e' ∨ e = e' ∧ r ≤ r') : height r e ≤ height r' e' := by
  have hleast := h.least
  have hbound := h.le
  have hbound' := h'.le
  have hfull' := h'.full
  unfold height
  by_cases hzero : r = 0
  · rw [if_pos hzero]
    exact zero_le_height r' e'
  have hzero' : r' ≠ 0 := by omega
  rw [if_neg hzero, if_neg hzero']
  by_cases hr : r < 2 ^ 53 <;> by_cases hr' : r' < 2 ^ 53 <;>
    simp only [hr, hr', if_true, if_false] <;> apply place_mono <;> omega

/-- A larger value is rounded to a larger one. -/
theorem rankOf_round_mono {m n : Nat} {e : ℤ} (hm : 0 < m) (hmn : m ≤ n)
    (he : e ≤ roundingExponent m e) :
    ∃ a ∈ rankOf (Float.Model.pack (roundWithAccuracy Format.binary64 .positive m e .exact)).unpack,
      ∃ b ∈ rankOf (Float.Model.pack
        (roundWithAccuracy Format.binary64 .positive n e .exact)).unpack, a ≤ b := by
  have hn : 0 < n := hm.trans_le hmn
  have hlog : m.log2 ≤ n.log2 := by
    rw [Nat.le_log2 (Nat.pos_iff_ne_zero.mp hn)]
    exact (Nat.log2_self_le (Nat.pos_iff_ne_zero.mp hm)).trans hmn
  have hexp : roundingExponent m e ≤ roundingExponent n e := by
    unfold roundingExponent
    omega
  obtain ⟨j, hj⟩ : ∃ j : Nat, e + j = roundingExponent m e :=
    ⟨(roundingExponent m e - e).toNat, by omega⟩
  obtain ⟨k, hk⟩ : ∃ k : Nat, e + k = roundingExponent n e :=
    ⟨(roundingExponent n e - e).toNat, by omega⟩
  have hsettled := settled_rounded hm hj
  have hsettled' := settled_rounded hn hk
  rw [roundWithAccuracy_eq hm hj, roundWithAccuracy_eq hn hk]
  refine ⟨_, rankOf_settle hsettled, _, rankOf_settle hsettled', height_mono hsettled hsettled' ?_⟩
  rcases Nat.lt_or_ge j k with hlt | hge
  · exact .inl (by omega)
  · obtain rfl : j = k := by omega
    exact .inr ⟨rfl, rounded_mono hmn j⟩

/-! ## Sums -/

/-- Rounding at an exponent that may have to be lowered. -/
theorem round_eq_scaled {m : Nat} {e : ℤ} (hm : 0 < m) {j : Nat}
    (hj : e - j ≤ roundingExponent m e) : round Format.binary64 .positive m e =
      roundWithAccuracy Format.binary64 .positive (m * 2 ^ j) (e - j) .exact := by
  obtain ⟨k, hk⟩ : ∃ k : Nat, (e - roundingExponent m e).toNat = k := ⟨_, rfl⟩
  have hround : round Format.binary64 .positive m e =
      roundWithAccuracy Format.binary64 .positive (m * 2 ^ k) (e - k) .exact := by
    unfold UnpackedFloat.round decreaseExponent
    rw [targetExponent_eq]
    dsimp only
    rw [hk, Nat.shiftLeft_eq]
  obtain ⟨i, rfl⟩ : ∃ i, j = k + i := ⟨j - k, by omega⟩
  have hlow : e - k ≤ roundingExponent (m * 2 ^ k) (e - k) := by
    rw [roundingExponent_scale hm]
    omega
  have hscale := roundWithAccuracy_scale (Nat.mul_pos hm (Nat.two_pow_pos k)) hlow i
  rw [Nat.mul_assoc, ← Nat.pow_add] at hscale
  rw [hround, ← hscale]
  congr 1
  push_cast
  ring

/-- A value at least as large as one that fits is rounded at no lower exponent. -/
theorem le_roundingExponent {m n k : Nat} {e : ℤ} (hfits : Fits m e) (h : m * 2 ^ k ≤ n) :
    e - k ≤ roundingExponent n (e - k) := by
  obtain ⟨hm, -, -, hfull⟩ := hfits
  unfold roundingExponent
  rcases hfull with hfull | rfl
  · have hn : n ≠ 0 := by
      have := Nat.mul_pos hm (Nat.two_pow_pos k)
      omega
    have hlog : 52 ≤ n.log2 := by
      rw [Nat.le_log2 hn]
      calc 2 ^ 52 ≤ m * 1 := by omega
        _ ≤ m * 2 ^ k := Nat.mul_le_mul_left m (Nat.one_le_two_pow)
        _ ≤ n := h
    omega
  · omega

/-- The order of values that fit is the order of their exact values. -/
theorem mul_two_pow_le {m n : Nat} {e f : ℤ} (hm : Fits m e) (hn : Fits n f)
    (h : e < f ∨ e = f ∧ m ≤ n) {i k : Nat} (hik : f - k = e - i) : m * 2 ^ i ≤ n * 2 ^ k := by
  rcases h with hlt | ⟨rfl, hle⟩
  · obtain ⟨j, rfl⟩ : ∃ j, k = i + 1 + j := ⟨k - i - 1, by omega⟩
    have hfull : 2 ^ 52 ≤ n := by
      have := hm.2.2.1
      exact hn.2.2.2.resolve_right (by omega)
    calc m * 2 ^ i ≤ 2 ^ 53 * 2 ^ i := Nat.mul_le_mul_right _ hm.2.1.le
      _ = 2 ^ 52 * 2 ^ (i + 1) := by rw [Nat.pow_succ 2 i]; ring
      _ ≤ n * 2 ^ (i + 1 + j) :=
        Nat.mul_le_mul hfull (Nat.pow_le_pow_right (by norm_num) (Nat.le_add_right _ _))
  · obtain rfl : i = k := by omega
    exact Nat.mul_le_mul_right _ hle

/-- A sum, written at any exponent that is low enough. -/
theorem add_finite_at {l m i k : Nat} {d e g : ℤ} (hl : 0 < l) (hm : 0 < m) (hfl : Fits l d)
    (hi : d - i = g) (hk : e - k = g) :
    UnpackedFloat.add Format.binary64 (.finite .positive l d hl) (.finite .positive m e hm) =
      roundWithAccuracy Format.binary64 .positive (l * 2 ^ i + m * 2 ^ k) g .exact := by
  obtain ⟨a, ha⟩ : ∃ a : Nat, (d - min d e).toNat = a := ⟨_, rfl⟩
  obtain ⟨b, hb⟩ : ∃ b : Nat, (e - min d e).toNat = b := ⟨_, rfl⟩
  obtain ⟨j, hj⟩ : ∃ j : Nat, min d e - j = g := ⟨(min d e - g).toNat, by omega⟩
  have hscaled : (l * 2 ^ a + m * 2 ^ b) * 2 ^ j = l * 2 ^ i + m * 2 ^ k := by
    have hleft : a + j = i := by omega
    have hright : b + j = k := by omega
    rw [Nat.add_mul, Nat.mul_assoc, Nat.mul_assoc, ← Nat.pow_add, ← Nat.pow_add, hleft, hright]
  have hpos : 0 < l * 2 ^ a + m * 2 ^ b := by positivity
  have hlow := le_roundingExponent hfl (Nat.le_add_right (l * 2 ^ i) (m * 2 ^ k))
  rw [hi, ← hj, ← hscaled, roundingExponent_scale hpos] at hlow
  rw [add_finite_eq, ha, hb, round_eq_scaled hpos hlow, hscaled, hj]

/-- Adding a larger value leads to a larger sum. -/
theorem rankOf_add_mono {l m n : Nat} {d e f : ℤ} (hl : 0 < l) (hm : 0 < m) (hn : 0 < n)
    (hfl : Fits l d) (hfm : Fits m e) (hfn : Fits n f) (h : e < f ∨ e = f ∧ m ≤ n) :
    ∃ a ∈ rankOf (Float.Model.pack (UnpackedFloat.add Format.binary64
        (.finite .positive l d hl) (.finite .positive m e hm))).unpack,
      ∃ b ∈ rankOf (Float.Model.pack (UnpackedFloat.add Format.binary64
        (.finite .positive l d hl) (.finite .positive n f hn))).unpack, a ≤ b := by
  -- both sums are written at the least exponent of all three values
  obtain ⟨i, hi⟩ : ∃ i : Nat, d - i = min d e := ⟨(d - min d e).toNat, by omega⟩
  obtain ⟨j, hj⟩ : ∃ j : Nat, e - j = min d e := ⟨(e - min d e).toNat, by omega⟩
  obtain ⟨k, hk⟩ : ∃ k : Nat, f - k = min d e := ⟨(f - min d e).toNat, by omega⟩
  rw [add_finite_at hl hm hfl hi hj, add_finite_at hl hn hfl hi hk]
  have hlow := le_roundingExponent hfl (Nat.le_add_right (l * 2 ^ i) (m * 2 ^ j))
  rw [hi] at hlow
  have hle := mul_two_pow_le hfm hfn h (hk.trans hj.symm)
  exact rankOf_round_mono (by positivity) (Nat.add_le_add_left hle _) hlow

/-! ## Products -/

/-- The product of values that fit is rounded at no lower exponent. -/
theorem le_roundingExponent_mul {m n : Nat} {e f : ℤ} (hm : Fits m e) (hn : Fits n f) :
    e + f ≤ roundingExponent (m * n) (e + f) := by
  obtain ⟨hm0, -, he, hfullm⟩ := hm
  obtain ⟨hn0, -, hf, hfulln⟩ := hn
  have hlog : ∀ k, 2 ^ 52 ≤ k → k ≤ m * n → 52 ≤ (m * n).log2 := by
    intro k hk hle
    rw [Nat.le_log2 (Nat.pos_iff_ne_zero.mp (Nat.mul_pos hm0 hn0))]
    exact hk.trans hle
  unfold roundingExponent
  rcases hfullm with hfull | hleast
  · have := hlog m hfull (Nat.le_mul_of_pos_right m hn0)
    omega
  · rcases hfulln with hfull | hleast'
    · have := hlog n hfull (Nat.le_mul_of_pos_left n hm0)
      omega
    · omega

/-- Multiplying a larger value leads to a larger product. -/
theorem rankOf_mul_mono {l m n : Nat} {d e f : ℤ} (hl : 0 < l) (hm : 0 < m) (hn : 0 < n)
    (hfl : Fits l d) (hfm : Fits m e) (hfn : Fits n f) (h : e < f ∨ e = f ∧ m ≤ n) :
    ∃ a ∈ rankOf (Float.Model.pack (UnpackedFloat.mul Format.binary64
        (.finite .positive m e hm) (.finite .positive l d hl))).unpack,
      ∃ b ∈ rankOf (Float.Model.pack (UnpackedFloat.mul Format.binary64
        (.finite .positive n f hn) (.finite .positive l d hl))).unpack, a ≤ b := by
  obtain ⟨k, hk⟩ : ∃ k : Nat, f - k = e - (0 : Nat) := ⟨(f - e).toNat, by omega⟩
  have hle := mul_two_pow_le hfm hfn h hk
  have hscale := roundWithAccuracy_scale (Nat.mul_pos hn hl) (le_roundingExponent_mul hfn hfl) k
  have hexp : f + d - k = e + d := by
    push_cast at hk
    omega
  rw [hexp] at hscale
  change ∃ a ∈ rankOf (Float.Model.pack
      (roundWithAccuracy Format.binary64 .positive (m * l) (e + d) .exact)).unpack,
    ∃ b ∈ rankOf (Float.Model.pack
      (roundWithAccuracy Format.binary64 .positive (n * l) (f + d) .exact)).unpack, a ≤ b
  rw [← hscale]
  refine rankOf_round_mono (Nat.mul_pos hm hl) ?_ (le_roundingExponent_mul hfm hfl)
  calc m * l = m * 2 ^ 0 * l := by rw [Nat.pow_zero, Nat.mul_one]
    _ ≤ n * 2 ^ k * l := Nat.mul_le_mul_right l hle
    _ = n * l * 2 ^ k := Nat.mul_right_comm n (2 ^ k) l

/-! ## Numbers that are not negative -/

section Nonneg

variable {x y z : Float}

theorem rank_add (x y : Float) : rank (x + y) = rankOf (Float.Model.pack
    (UnpackedFloat.add Format.binary64 x.toModel.unpack y.toModel.unpack)).unpack :=
  rfl

theorem rank_mul (x y : Float) : rank (x * y) = rankOf (Float.Model.pack
    (UnpackedFloat.mul Format.binary64 x.toModel.unpack y.toModel.unpack)).unpack :=
  rfl

theorem nonneg_iff_rank : 0 ≤ x ↔ ∃ a ∈ rank x, toLex (0, toLex (0, 0)) ≤ a := by
  rw [le_iff_rank, rank_zero]
  simp

theorem unpack_zero : ∃ s, (0 : Float).toModel.unpack = .zero s := by
  have hrank := rank_zero
  unfold rank at hrank
  cases hzero : (0 : Float).toModel.unpack with
  | zero s => exact ⟨s, rfl⟩
  | notANumber => simp [hzero, rankOf] at hrank
  | infinity s => cases s <;> simp [hzero, rankOf] at hrank
  | finite s m e hm => cases s <;> simp [hzero, rankOf] at hrank

theorem rankOf_pack_zero (s : Sign) :
    rankOf (Float.Model.pack (.zero s)).unpack = some (toLex (0, toLex (0, 0))) := by
  cases s <;> decide

theorem rankOf_pack_unpack {x : Float} {m : Nat} {e : ℤ} {hm : 0 < m}
    (hx : x.toModel.unpack = .finite .positive m e hm) :
    rankOf (Float.Model.pack (.finite .positive m e hm)).unpack = rank x := by
  obtain ⟨hfits, hmost⟩ := fits_of_unpack hx
  rw [unpack_pack_finite hm hfits hmost, rank, hx]

/-- Adding to zero keeps the place in the order. -/
theorem rank_add_of_zero {s : Sign} (hx : x.toModel.unpack = .zero s) (hy : 0 ≤ y) :
    rank (x + y) = rank y := by
  rw [rank_add, hx]
  rcases unpack_of_nonneg hy with hy' | ⟨t, hy'⟩ | ⟨m, e, hm, hy'⟩
  · rw [hy', rank, hy']
    exact congrArg rankOf (unpack_pack_infinity .positive)
  · rw [hy', rank, hy']
    cases s <;> cases t <;> decide
  · rw [hy']
    exact rankOf_pack_unpack hy'

theorem rank_add_zero {s : Sign} (hy : y.toModel.unpack = .zero s) (hx : 0 ≤ x) :
    rank (x + y) = rank x := by
  rw [rank_add, hy]
  rcases unpack_of_nonneg hx with hx' | ⟨t, hx'⟩ | ⟨m, e, hm, hx'⟩
  · rw [hx', rank, hx']
    exact congrArg rankOf (unpack_pack_infinity .positive)
  · rw [hx', rank, hx']
    cases s <;> cases t <;> decide
  · rw [hx']
    exact rankOf_pack_unpack hx'

/-- A sum with an infinity. -/
theorem unpack_add_of_infinity (hx : 0 ≤ x) (hy : 0 ≤ y)
    (h : x.toModel.unpack = .infinity .positive ∨ y.toModel.unpack = .infinity .positive) :
    (x + y).toModel.unpack = .infinity .positive := by
  have hsum : UnpackedFloat.add Format.binary64 x.toModel.unpack y.toModel.unpack =
      .infinity .positive := by
    rcases unpack_of_nonneg hx with hx' | ⟨s, hx'⟩ | ⟨m, e, hm, hx'⟩ <;>
      rcases unpack_of_nonneg hy with hy' | ⟨t, hy'⟩ | ⟨n, f, hn, hy'⟩ <;>
        rw [hx', hy'] at h ⊢ <;> first | rfl | simp at h
  show (Float.Model.pack (UnpackedFloat.add Format.binary64 _ _)).unpack = _
  rw [hsum, unpack_pack_infinity]

theorem rankOf_le_infinity {u : UnpackedFloat} {a : ℤ ×ₗ ℤ ×ₗ ℤ} (ha : a ∈ rankOf u) :
    a ≤ toLex (2, toLex (0, 0)) := by
  cases u with
  | notANumber => simp [rankOf] at ha
  | infinity s =>
      cases s with
      | positive =>
          obtain rfl := Option.some.inj ha
          exact le_refl (toLex (2, toLex (0, 0)) : ℤ ×ₗ ℤ ×ₗ ℤ)
      | negative =>
          obtain rfl := Option.some.inj ha
          exact Prod.Lex.toLex_le_toLex.mpr (.inl (by norm_num))
  | zero s =>
      obtain rfl := Option.some.inj ha
      exact Prod.Lex.toLex_le_toLex.mpr (.inl (by norm_num))
  | finite s m e hm =>
      cases s <;> obtain rfl := Option.some.inj ha <;>
        exact Prod.Lex.toLex_le_toLex.mpr (.inl (by norm_num))

/-- Of two positive finite numbers the larger one has the larger exponent, or else the larger
mantissa. -/
theorem lex_of_le {m n : Nat} {e f : ℤ} {hm : 0 < m} {hn : 0 < n}
    (hx : x.toModel.unpack = .finite .positive m e hm)
    (hy : y.toModel.unpack = .finite .positive n f hn) (h : x ≤ y) : e < f ∨ e = f ∧ m ≤ n := by
  obtain ⟨a, ha, b, hb, hab⟩ := le_iff_rank.mp h
  rw [rank, hx] at ha
  rw [rank, hy] at hb
  obtain rfl := Option.some.inj ha
  obtain rfl := Option.some.inj hb
  rcases Prod.Lex.toLex_le_toLex.mp hab with hlt | ⟨-, hle⟩
  · simp at hlt
  · simpa [Prod.Lex.toLex_le_toLex] using hle

theorem exists_rank_add (hx : 0 ≤ x) (hy : 0 ≤ y) : ∃ a, a ∈ rank (x + y) := by
  rcases unpack_of_nonneg hx with hx' | ⟨s, hx'⟩ | ⟨m, e, hm, hx'⟩
  · rw [rank, unpack_add_of_infinity hx hy (.inl hx')]
    exact ⟨_, rfl⟩
  · obtain ⟨a, ha, -⟩ := nonneg_iff_rank.mp hy
    exact ⟨a, rank_add_of_zero hx' hy ▸ ha⟩
  rcases unpack_of_nonneg hy with hy' | ⟨t, hy'⟩ | ⟨n, f, hn, hy'⟩
  · rw [rank, unpack_add_of_infinity hx hy (.inr hy')]
    exact ⟨_, rfl⟩
  · obtain ⟨a, ha, -⟩ := nonneg_iff_rank.mp hx
    exact ⟨a, rank_add_zero hy' hx ▸ ha⟩
  · obtain ⟨-, -, b, hb, -⟩ := rankOf_le_add_finite hm hn (fits_of_unpack hx').1
    rw [rank_add, hx', hy']
    exact ⟨b, hb⟩

/-- Adding a larger number leads to a larger sum. -/
theorem add_le_add_left (hx : 0 ≤ x) (hy : 0 ≤ y) (hyz : y ≤ z) : x + y ≤ x + z := by
  have hz := le_trans hy hyz
  rcases unpack_of_nonneg hx with hx' | ⟨s, hx'⟩ | ⟨l, d, hl, hx'⟩
  · have hinfinity : ∀ {w : Float}, 0 ≤ w → rank (x + w) = some (toLex (2, toLex (0, 0))) := by
      intro w hw
      rw [rank, unpack_add_of_infinity hx hw (.inl hx')]
      rfl
    exact le_iff_rank.mpr ⟨_, hinfinity hy, _, hinfinity hz, le_rfl⟩
  · rw [le_iff_rank, rank_add_of_zero hx' hy, rank_add_of_zero hx' hz]
    exact le_iff_rank.mp hyz
  obtain ⟨hfl, -⟩ := fits_of_unpack hx'
  rcases unpack_of_nonneg hz with hz' | ⟨u, hz'⟩ | ⟨n, f, hn, hz'⟩
  · -- an infinite sum is above every other one
    obtain ⟨a, ha⟩ := exists_rank_add hx hy
    refine le_iff_rank.mpr ⟨a, ha, toLex (2, toLex (0, 0)), ?_, rankOf_le_infinity ha⟩
    rw [rank, unpack_add_of_infinity hx hz (.inr hz')]
    rfl
  all_goals
    have hfinz : z.isFinite := by
      change z.toModel.unpack.isFinite = true
      rw [hz']
      rfl
    rcases unpack_of_nonneg hy with hy' | ⟨t, hy'⟩ | ⟨m, e, hm, hy'⟩
    · have hfiny := isFinite_of_le hy hyz hfinz
      change y.toModel.unpack.isFinite = true at hfiny
      rw [hy'] at hfiny
      cases hfiny
    · rw [le_iff_rank, rank_add_zero hy' hx]
      exact le_iff_rank.mp (le_add_of_nonneg hx hz hfinz)
  · obtain ⟨a, ha, b, hb, hab⟩ := le_iff_rank.mp hyz
    rw [rank, hy'] at ha
    rw [rank, hz'] at hb
    obtain rfl := Option.some.inj ha
    obtain rfl := Option.some.inj hb
    simp [Prod.Lex.toLex_le_toLex] at hab
  · rw [le_iff_rank, rank_add, rank_add, hx', hy', hz']
    exact rankOf_add_mono hl hm hn hfl (fits_of_unpack hy').1 (fits_of_unpack hz').1
      (lex_of_le hy' hz' hyz)

theorem add_nonneg (hx : 0 ≤ x) (hy : 0 ≤ y) : 0 ≤ x + y := by
  obtain ⟨s, hzero⟩ := unpack_zero
  have hle : x + 0 ≤ x + y := add_le_add_left hx (by decide) hy
  refine le_trans ?_ hle
  rw [le_iff_rank, rank_add_zero hzero hx]
  exact le_iff_rank.mp hx

theorem zero_add_le (hx : 0 ≤ x) : 0 + x ≤ y ↔ x ≤ y := by
  obtain ⟨s, hzero⟩ := unpack_zero
  rw [le_iff_rank, le_iff_rank, rank_add_of_zero hzero hx]

theorem rank_add_comm (hx : 0 ≤ x) (hy : 0 ≤ y) : rank (x + y) = rank (y + x) := by
  rcases unpack_of_nonneg hx with hx' | ⟨s, hx'⟩ | ⟨m, e, hm, hx'⟩
  · rw [rank, rank, unpack_add_of_infinity hx hy (.inl hx'),
      unpack_add_of_infinity hy hx (.inr hx')]
  · rw [rank_add_of_zero hx' hy, rank_add_zero hx' hy]
  rcases unpack_of_nonneg hy with hy' | ⟨t, hy'⟩ | ⟨n, f, hn, hy'⟩
  · rw [rank, rank, unpack_add_of_infinity hx hy (.inr hy'),
      unpack_add_of_infinity hy hx (.inl hy')]
  · rw [rank_add_zero hy' hx, rank_add_of_zero hy' hx]
  · rw [rank_add, rank_add, hx', hy', add_finite_eq hm hn, add_finite_eq hn hm, min_comm e f,
      Nat.add_comm (m * _)]

theorem add_le_add_right (hx : 0 ≤ x) (hy : 0 ≤ y) (hxz : x ≤ z) : x + y ≤ z + y := by
  have hle := add_le_add_left hy hx hxz
  rw [le_iff_rank] at hle ⊢
  rwa [rank_add_comm hx hy, rank_add_comm (le_trans hx hxz) hy]

theorem le_add_of_left_nonneg (hx : 0 ≤ x) (hy : 0 ≤ y) : y ≤ x + y :=
  (zero_add_le hy).mp (add_le_add_right (by decide) hy hx)

theorem isFinite_of_isFinite_add (hx : 0 ≤ x) (hy : 0 ≤ y) (h : (x + y).isFinite) : y.isFinite := by
  change (x + y).toModel.unpack.isFinite = true at h
  change y.toModel.unpack.isFinite = true
  rcases unpack_of_nonneg hy with hy' | ⟨t, hy'⟩ | ⟨n, f, hn, hy'⟩
  · rw [unpack_add_of_infinity hx hy (.inr hy')] at h
    cases h
  · rw [hy']
    rfl
  · rw [hy']
    rfl

theorem unpack_of_finite (hx : 0 ≤ x) (hfin : x.isFinite) : (∃ s, x.toModel.unpack = .zero s) ∨
    ∃ m e, ∃ hm : 0 < m, x.toModel.unpack = .finite .positive m e hm := by
  rcases unpack_of_nonneg hx with hx' | hrest
  · change x.toModel.unpack.isFinite = true at hfin
    rw [hx'] at hfin
    cases hfin
  · exact hrest

/-- A product with a zero. -/
theorem rank_mul_zero (hx : 0 ≤ x) (hfinx : x.isFinite) (hy : 0 ≤ y) (hfiny : y.isFinite)
    (h : (∃ s, x.toModel.unpack = .zero s) ∨ ∃ s, y.toModel.unpack = .zero s) :
    rank (x * y) = some (toLex (0, toLex (0, 0))) := by
  have hzero : ∃ s, UnpackedFloat.mul Format.binary64 x.toModel.unpack y.toModel.unpack = .zero s := by
    rcases unpack_of_finite hx hfinx with ⟨s, hx'⟩ | ⟨m, e, hm, hx'⟩ <;>
      rcases unpack_of_finite hy hfiny with ⟨t, hy'⟩ | ⟨n, f, hn, hy'⟩ <;>
        rw [hx', hy'] at h ⊢ <;> first | exact ⟨_, rfl⟩ | simp at h
  obtain ⟨s, hzero⟩ := hzero
  rw [rank_mul, hzero, rankOf_pack_zero]

theorem mul_nonneg (hx : 0 ≤ x) (hfinx : x.isFinite) (hy : 0 ≤ y) (hfiny : y.isFinite) :
    0 ≤ x * y := by
  rw [nonneg_iff_rank]
  rcases unpack_of_finite hx hfinx with hx' | ⟨m, e, hm, hx'⟩
  · exact ⟨_, rank_mul_zero hx hfinx hy hfiny (.inl hx'), le_rfl⟩
  rcases unpack_of_finite hy hfiny with hy' | ⟨n, f, hn, hy'⟩
  · exact ⟨_, rank_mul_zero hx hfinx hy hfiny (.inr hy'), le_rfl⟩
  have hlow := le_roundingExponent_mul (fits_of_unpack hx').1 (fits_of_unpack hy').1
  obtain ⟨k, hk⟩ : ∃ k : Nat, (e + f) + k = roundingExponent (m * n) (e + f) :=
    ⟨(roundingExponent (m * n) (e + f) - (e + f)).toNat, by omega⟩
  have hpos := Nat.mul_pos hm hn
  refine ⟨height (rounded (m * n) k) (e + f + k), ?_, zero_le_height _ _⟩
  rw [rank_mul, hx', hy']
  change _ ∈ rankOf (Float.Model.pack
    (roundWithAccuracy Format.binary64 .positive (m * n) (e + f) .exact)).unpack
  rw [roundWithAccuracy_eq hpos hk]
  exact rankOf_settle (settled_rounded hpos hk)

/-- Multiplying a larger number leads to a larger product. -/
theorem mul_le_mul_right (hx : 0 ≤ x) (hxy : x ≤ y) (hy : y.isFinite) (hz : 0 ≤ z)
    (hfin : z.isFinite) : x * z ≤ y * z := by
  have hy0 := le_trans hx hxy
  have hfinx := isFinite_of_le hx hxy hy
  have hleast : ∀ {w : Float}, rank (x * z) = some (toLex (0, toLex (0, 0))) → 0 ≤ w →
      x * z ≤ w := by
    intro w hrank hw
    obtain ⟨b, hb, hle⟩ := nonneg_iff_rank.mp hw
    exact le_iff_rank.mpr ⟨_, hrank, b, hb, hle⟩
  rcases unpack_of_finite hz hfin with hz' | ⟨l, d, hl, hz'⟩
  · exact hleast (rank_mul_zero hx hfinx hz hfin (.inr hz')) (mul_nonneg hy0 hy hz hfin)
  rcases unpack_of_finite hx hfinx with hx' | ⟨m, e, hm, hx'⟩
  · exact hleast (rank_mul_zero hx hfinx hz hfin (.inl hx')) (mul_nonneg hy0 hy hz hfin)
  rcases unpack_of_finite hy0 hy with ⟨s, hy'⟩ | ⟨n, f, hn, hy'⟩
  · obtain ⟨a, ha, b, hb, hab⟩ := le_iff_rank.mp hxy
    rw [rank, hx'] at ha
    rw [rank, hy'] at hb
    obtain rfl := Option.some.inj ha
    obtain rfl := Option.some.inj hb
    simp [Prod.Lex.toLex_le_toLex] at hab
  · rw [le_iff_rank, rank_mul, rank_mul, hx', hy', hz']
    exact rankOf_mul_mono hl hm hn (fits_of_unpack hz').1 (fits_of_unpack hx').1
      (fits_of_unpack hy').1 (lex_of_le hx' hy' hxy)

theorem isFinite_of_rank {a : ℤ ×ₗ ℤ ×ₗ ℤ} (ha : rank x = some a)
    (hle : toLex (0, toLex (0, 0)) ≤ a) (hlt : a < toLex (2, toLex (0, 0))) : x.isFinite := by
  change x.toModel.unpack.isFinite = true
  have hx : 0 ≤ x := nonneg_iff_rank.mpr ⟨a, ha, hle⟩
  rcases unpack_of_nonneg hx with hx' | ⟨s, hx'⟩ | ⟨m, e, hm, hx'⟩
  · rw [rank, hx'] at ha
    obtain rfl := Option.some.inj ha
    exact absurd hlt (lt_irrefl (toLex (2, toLex (0, 0)) : ℤ ×ₗ ℤ ×ₗ ℤ))
  · rw [hx']
    rfl
  · rw [hx']
    rfl

theorem height_lt_infinity {r : Nat} {e : ℤ} (he : e < 971) :
    height r e < toLex (2, toLex (0, 0)) := by
  have hplace : ∀ (m : Nat) (f : ℤ), f ≤ 971 → place m f < toLex (2, toLex (0, 0)) := by
    intro m f hf
    unfold place
    rw [if_neg (not_lt.mpr hf)]
    exact Prod.Lex.toLex_lt_toLex.mpr (.inl (by norm_num))
  unfold height
  split
  · exact Prod.Lex.toLex_lt_toLex.mpr (.inl (by norm_num))
  · split
    · exact hplace _ _ he.le
    · exact hplace _ _ (by omega)

theorem rank_toFloat_zero {n : UInt64} (hzero : n.toNat = 0) :
    rank n.toFloat = some (toLex (0, toLex (0, 0))) := by
  change rankOf (Float.Model.pack
    (UnpackedFloat.normalize Format.binary64 (n.toNat : ℤ) 0 .positive)).unpack = _
  rw [hzero]
  exact rankOf_pack_zero .positive

/-- A machine word that is not zero may be rounded from any exponent that is low enough. -/
theorem rank_toFloat {n : UInt64} (hpos : 0 < n.toNat) {j : Nat} (hj : 1074 ≤ j) :
    rank n.toFloat = rankOf (Float.Model.pack (roundWithAccuracy Format.binary64 .positive
      (n.toNat * 2 ^ j) (0 - j) .exact)).unpack := by
  have hleast : -1074 ≤ roundingExponent n.toNat 0 := le_max_right _ _
  have hlow : (0 : ℤ) - j ≤ roundingExponent n.toNat 0 := by omega
  have hround : UnpackedFloat.normalize Format.binary64 (n.toNat : ℤ) 0 .positive =
      round Format.binary64 .positive n.toNat 0 := by
    unfold UnpackedFloat.normalize
    rw [compare_gt_iff_gt.mpr (Int.natCast_pos.mpr hpos)]
    rfl
  change rankOf (Float.Model.pack
    (UnpackedFloat.normalize Format.binary64 (n.toNat : ℤ) 0 .positive)).unpack = _
  rw [hround, round_eq_scaled hpos hlow]

/-- A machine word becomes a finite number that is not negative. -/
theorem nonneg_toFloat (n : UInt64) : 0 ≤ n.toFloat ∧ n.toFloat.isFinite := by
  have hrank : ∃ r e, e < 971 ∧ rank n.toFloat = some (height r e) := by
    rcases Nat.eq_zero_or_pos n.toNat with hzero | hpos
    · exact ⟨0, 0, by norm_num, rank_toFloat_zero hzero⟩
    have hlog : n.toNat.log2 < 64 := log2_lt_of_lt hpos n.toNat_lt
    have hexp : roundingExponent n.toNat 0 < 971 ∧ -1074 ≤ roundingExponent n.toNat 0 := by
      unfold roundingExponent
      omega
    obtain ⟨j, hj⟩ : ∃ j : Nat, 1074 ≤ j := ⟨_, le_rfl⟩
    have hscale := roundingExponent_scale hpos 0 j
    obtain ⟨k, hk⟩ : ∃ k : Nat, ((0 : ℤ) - j) + k =
        roundingExponent (n.toNat * 2 ^ j) ((0 : ℤ) - j) :=
      ⟨(roundingExponent (n.toNat * 2 ^ j) ((0 : ℤ) - j) - ((0 : ℤ) - j)).toNat, by omega⟩
    have hpos' := Nat.mul_pos hpos (Nat.two_pow_pos j)
    refine ⟨rounded (n.toNat * 2 ^ j) k, (0 : ℤ) - j + k, by omega, ?_⟩
    rw [rank_toFloat hpos hj, roundWithAccuracy_eq hpos' hk]
    exact rankOf_settle (settled_rounded hpos' hk)
  obtain ⟨r, e, he, hrank⟩ := hrank
  exact ⟨nonneg_iff_rank.mpr ⟨_, hrank, zero_le_height r e⟩,
    isFinite_of_rank hrank (zero_le_height r e) (height_lt_infinity he)⟩

theorem toFloat_mono {m n : UInt64} (h : m ≤ n) : m.toFloat ≤ n.toFloat := by
  rcases Nat.eq_zero_or_pos m.toNat with hzero | hpos
  · obtain ⟨b, hb, hle⟩ := nonneg_iff_rank.mp (nonneg_toFloat n).1
    exact le_iff_rank.mpr ⟨_, rank_toFloat_zero hzero, b, hb, hle⟩
  · have hle : m.toNat ≤ n.toNat := UInt64.le_iff_toNat_le.mp h
    obtain ⟨j, hj⟩ : ∃ j : Nat, 1074 ≤ j := ⟨_, le_rfl⟩
    have hleast : -1074 ≤ roundingExponent (m.toNat * 2 ^ j) (0 - j) := le_max_right _ _
    rw [le_iff_rank, rank_toFloat hpos hj, rank_toFloat (hpos.trans_le hle) hj]
    exact rankOf_round_mono (Nat.mul_pos hpos (Nat.two_pow_pos j)) (Nat.mul_le_mul_right _ hle)
      (by omega)

end Nonneg

end Retime.Binary64

import Mathlib
import Retime.Proofs.Binary64.Order

/-! # Sums of binary64 numbers

Adding a number that is not negative never leads below the other summand, whatever
the rounding does: the exact sum is rounded at an exponent that is no smaller, and
rounding never drops below the mantissa that was there. An overflow goes to infinity,
which is above everything.
-/

namespace Retime.Binary64

open Float.Model UnpackedFloat

/-- The finite values that the format can hold, apart from the bound on the exponent:
a full mantissa, or the least exponent. -/
def Fits (m : Nat) (e : ℤ) : Prop :=
  0 < m ∧ m < 2 ^ 53 ∧ -1074 ≤ e ∧ (2 ^ 52 ≤ m ∨ e = -1074)

/-! ## Packing -/

theorem toNat_one_append (m : BitVec 52) : (1#1 ++ m).toNat = 2 ^ 52 + m.toNat := by
  rw [BitVec.toNat_append, ← Nat.shiftLeft_add_eq_or_of_lt m.isLt]
  rfl

theorem unpack_packedInfinity (s : Sign) :
    UnpackedFloat.unpack Format.binary64 (packedInfinity Format.binary64 s) = .infinity s := by
  unfold packedInfinity UnpackedFloat.unpack
  simp only [unpackExponent_packComponents, unpackMantissa_packComponents,
    unpackSign_packComponents, Sign.ofBitVec_toBitVec, ↓reduceIte]
  rfl

theorem unpack_pack_infinity (s : Sign) :
    (Float.Model.pack (.infinity s)).unpack = .infinity s :=
  unpack_packedInfinity s

/-- A value whose exponent is too large is packed as an infinity. -/
theorem unpack_pack_overflow {s : Sign} {m : Nat} {e : ℤ} (hm : 0 < m) (he : 971 < e) :
    (Float.Model.pack (.finite s m e hm)).unpack = .infinity s := by
  have hlarge : 2 ^ 11 ≤ (e + (1023 : ℕ) + (52 : ℕ)).toNat + 1 := by omega
  have hpack : UnpackedFloat.pack Format.binary64 (.finite s m e hm) =
      packedInfinity Format.binary64 s := by
    unfold UnpackedFloat.pack
    exact if_pos hlarge
  show UnpackedFloat.unpack Format.binary64
    (UnpackedFloat.pack Format.binary64 (.finite s m e hm)) = _
  rw [hpack, unpack_packedInfinity]

theorem log2_lt_of_lt {m k : Nat} (hm : 0 < m) (h : m < 2 ^ k) : m.log2 < k :=
  (Nat.log2_lt (Nat.pos_iff_ne_zero.mp hm)).mpr h

/-- A value with a full mantissa is packed without the leading bit. -/
theorem unpack_pack_normal {s : Sign} {m : Nat} {e : ℤ} (hm : 0 < m) (hlow : 2 ^ 52 ≤ m)
    (hhigh : m < 2 ^ 53) (hleast : -1074 ≤ e) (hmost : e ≤ 971) :
    (Float.Model.pack (.finite s m e hm)).unpack = .finite s m e hm := by
  have hlog : m.log2 + 1 = Format.binary64.mantissaBits := by
    have := log2_lt_of_lt hm hhigh
    have := (Nat.le_log2 (Nat.pos_iff_ne_zero.mp hm)).mpr hlow
    show m.log2 + 1 = 53
    omega
  obtain ⟨b, hb⟩ : ∃ b : Nat, (e + (1023 : ℕ) + (52 : ℕ)).toNat = b ∧ 0 < b ∧ b < 2047 :=
    ⟨_, rfl, by omega, by omega⟩
  have hpack : UnpackedFloat.pack Format.binary64 (.finite s m e hm) =
      packComponents Format.binary64 s (BitVec.ofNat 11 b) (BitVec.ofNat 52 m) := by
    unfold UnpackedFloat.pack
    show (if 2 ^ 11 ≤ (e + (1023 : ℕ) + (52 : ℕ)).toNat + 1 then _ else if _ then
      packComponents Format.binary64 s
        (BitVec.ofNat 11 (e + (1023 : ℕ) + (52 : ℕ)).toNat) (BitVec.ofNat 52 m) else _) = _
    rw [if_neg (by omega), if_pos hlog, hb.1]
  have hb_ne_ones : BitVec.ofNat 11 b ≠ -1#11 := by
    intro h
    have := congrArg BitVec.toNat h
    simp at this
    omega
  have hb_ne_zero : BitVec.ofNat 11 b ≠ 0#11 := by
    intro h
    have := congrArg BitVec.toNat h
    simp at this
    omega
  have hmant : (1#1 ++ BitVec.ofNat 52 m).toNat = m := by
    rw [toNat_one_append, BitVec.toNat_ofNat]
    omega
  have hexp : (BitVec.ofNat 11 b).toNat = b := by
    rw [BitVec.toNat_ofNat]
    omega
  show UnpackedFloat.unpack Format.binary64
    (UnpackedFloat.pack Format.binary64 (.finite s m e hm)) = _
  rw [hpack]
  unfold UnpackedFloat.unpack
  simp only [unpackExponent_packComponents, unpackMantissa_packComponents,
    unpackSign_packComponents, Sign.ofBitVec_toBitVec, hb_ne_ones, hb_ne_zero, ↓reduceIte,
    hmant, hexp]
  congr 1
  show (b : ℤ) - ((1023 : ℕ) + (52 : ℕ)) = e
  omega

/-- A value with the least exponent and a shorter mantissa is packed as it is. -/
theorem unpack_pack_subnormal {s : Sign} {m : Nat} (hm : 0 < m) (hhigh : m < 2 ^ 52) :
    (Float.Model.pack (.finite s m (-1074) hm)).unpack = .finite s m (-1074) hm := by
  have hlog : m.log2 + 1 ≠ Format.binary64.mantissaBits := by
    have := log2_lt_of_lt hm hhigh
    show m.log2 + 1 ≠ 53
    omega
  have hpack : UnpackedFloat.pack Format.binary64 (.finite s m (-1074) hm) =
      packComponents Format.binary64 s 0#11 (BitVec.ofNat 52 m) := by
    unfold UnpackedFloat.pack
    show (if 2 ^ 11 ≤ 2 then _ else if _ then _ else _) = _
    rw [if_neg (by omega), if_neg hlog]
  have hmant : (BitVec.ofNat 52 m).toNat = m := by
    rw [BitVec.toNat_ofNat]
    omega
  have hm_ne_zero : BitVec.ofNat 52 m ≠ 0#52 := by
    intro h
    have := congrArg BitVec.toNat h
    rw [hmant] at this
    simp at this
    omega
  show UnpackedFloat.unpack Format.binary64
    (UnpackedFloat.pack Format.binary64 (.finite s m (-1074) hm)) = _
  rw [hpack]
  unfold UnpackedFloat.unpack
  simp only [unpackExponent_packComponents, unpackMantissa_packComponents,
    unpackSign_packComponents, Sign.ofBitVec_toBitVec, hm_ne_zero, hmant]
  rfl

/-- Packing loses nothing of a value that fits. -/
theorem unpack_pack_finite {s : Sign} {m : Nat} {e : ℤ} (hm : 0 < m) (hfits : Fits m e)
    (he : e ≤ 971) : (Float.Model.pack (.finite s m e hm)).unpack = .finite s m e hm := by
  obtain ⟨-, hhigh, hleast, hfull⟩ := hfits
  by_cases hlow : 2 ^ 52 ≤ m
  · exact unpack_pack_normal hm hlow hhigh hleast he
  · obtain rfl : e = -1074 := hfull.resolve_left hlow
    exact unpack_pack_subnormal hm (Nat.lt_of_not_le hlow)

/-- What is unpacked fits. -/
theorem fits_of_unpack {x : Float.Model} {s : Sign} {m : Nat} {e : ℤ} {hm : 0 < m}
    (h : x.unpack = .finite s m e hm) : Fits m e ∧ e ≤ 971 := by
  unfold Float.Model.unpack UnpackedFloat.unpack at h
  dsimp only at h
  have hmant : (@unpackMantissa Format.binary64 x.toBits.toBitVec).toNat < 2 ^ 52 :=
    BitVec.isLt _
  have hexp : (@unpackExponent Format.binary64 x.toBits.toBitVec).toNat < 2 ^ 11 :=
    BitVec.isLt _
  split at h
  · split at h <;> cases h
  next hinf =>
    have hlast : (@unpackExponent Format.binary64 x.toBits.toBitVec).toNat ≠ 2047 :=
      fun h1 => hinf (BitVec.eq_of_toNat_eq h1)
    split at h
    next hzero =>
      split at h
      · cases h
      · cases h
        rw [hzero]
        exact ⟨⟨hm, by omega, by decide, Or.inr (by decide)⟩, by decide⟩
    next hzero =>
      have hpos : (@unpackExponent Format.binary64 x.toBits.toBitVec).toNat ≠ 0 :=
        fun h0 => hzero (BitVec.eq_of_toNat_eq h0)
      cases h
      have hbias : (Format.binary64.exponentBias : ℤ) = 1023 := rfl
      rw [toNat_one_append, hbias]
      refine ⟨⟨by omega, by omega, by omega, Or.inl (by omega)⟩, by omega⟩

/-! ## Rounding -/

theorem mantissa_shiftRight (x : ExtendedMantissa) (k : Nat) :
    (x >>> k).mantissa = x.mantissa / 2 ^ k := by
  show (Nat.repeat ExtendedMantissa.shiftRightOne k x).mantissa = _
  induction k with
  | zero => simp [Nat.repeat]
  | succ k ih =>
      show (Nat.repeat ExtendedMantissa.shiftRightOne k x).mantissa / 2 = _
      rw [ih, Nat.div_div_eq_div_mul, Nat.pow_succ]

/-- Rounding to an integer keeps the mantissa or adds one. -/
theorem roundedMantissa_bounds (x : ExtendedMantissa) :
    x.mantissa ≤ x.roundedMantissa ∧ x.roundedMantissa ≤ x.mantissa + 1 := by
  rcases x with ⟨m, round, sticky⟩
  unfold ExtendedMantissa.roundedMantissa ExtendedMantissa.accuracy
  cases round <;> cases sticky <;> simp only [Accuracy.roundToNearestEven] <;> omega

/-- The exponent at which a magnitude is rounded. -/
def roundingExponent (m : Nat) (e : ℤ) : ℤ :=
  max (m.log2 + e - 52) (-1074)

theorem targetExponent_eq (m : Nat) (e : ℤ) :
    Format.binary64.targetExponent (totalExponent m e) = roundingExponent m e := by
  show max ((m.log2 + 1 + e) - (53 : ℕ)) (3 - 2 ^ (11 - 1) - (53 : ℕ)) = _
  unfold roundingExponent
  norm_num
  omega

theorem shiftToTargetExponent_mantissa (m : Nat) (e : ℤ) :
    (shiftToTargetExponent Format.binary64 m e .exact).1.mantissa =
      m / 2 ^ (roundingExponent m e - e).toNat := by
  unfold shiftToTargetExponent shiftToExponent
  rw [targetExponent_eq]
  exact mantissa_shiftRight _ _

theorem shiftToTargetExponent_exponent (m : Nat) (e : ℤ) :
    (shiftToTargetExponent Format.binary64 m e .exact).2 =
      e + (roundingExponent m e - e).toNat := by
  unfold shiftToTargetExponent shiftToExponent
  rw [targetExponent_eq]

/-- The truncated mantissa fits, and it is full unless the exponent is the least. -/
theorem truncated_bounds {m k : Nat} {e : ℤ} (hm : 0 < m)
    (hk : e + k = roundingExponent m e) :
    m / 2 ^ k < 2 ^ 53 ∧ (2 ^ 52 ≤ m / 2 ^ k ∨ e + k = -1074) := by
  have hm0 : m ≠ 0 := Nat.pos_iff_ne_zero.mp hm
  unfold roundingExponent at hk
  constructor
  · have hlog : m.log2 < 53 + k := by omega
    rw [Nat.div_lt_iff_lt_mul (Nat.two_pow_pos k), ← Nat.pow_add]
    exact (Nat.log2_lt hm0).mp hlog
  · by_cases hleast : e + k = -1074
    · exact Or.inr hleast
    · have hlog : 52 + k ≤ m.log2 := by omega
      apply Or.inl
      rw [Nat.le_div_iff_mul_le (Nat.two_pow_pos k), ← Nat.pow_add]
      exact (Nat.le_log2 hm0).mp hlog

/-- A mantissa that fits is not shifted any more. -/
theorem shift_of_lt {r : Nat} {e : ℤ} (hr : r < 2 ^ 53) (he : -1074 ≤ e) :
    (shiftToTargetExponent Format.binary64 r e .exact).1.mantissa = r ∧
      (shiftToTargetExponent Format.binary64 r e .exact).2 = e := by
  have hlog : r.log2 < 53 := by
    by_cases hr0 : r = 0
    · rw [hr0]
      decide
    · exact (Nat.log2_lt hr0).mpr hr
  have hshift : (roundingExponent r e - e).toNat = 0 := by
    unfold roundingExponent
    omega
  rw [shiftToTargetExponent_mantissa, shiftToTargetExponent_exponent, hshift]
  simp

/-- A mantissa that grew out of the format by rounding is halved once. -/
theorem shift_of_carry {e : ℤ} (he : -1074 ≤ e) :
    (shiftToTargetExponent Format.binary64 (2 ^ 53) e .exact).1.mantissa = 2 ^ 52 ∧
      (shiftToTargetExponent Format.binary64 (2 ^ 53) e .exact).2 = e + 1 := by
  have hshift : (roundingExponent (2 ^ 53) e - e).toNat = 1 := by
    unfold roundingExponent
    rw [Nat.log2_two_pow]
    omega
  rw [shiftToTargetExponent_mantissa, shiftToTargetExponent_exponent, hshift]
  exact ⟨by norm_num, by norm_num⟩

/-- What rounding yields: a value that fits, at the rounding exponent or above, and at
the rounding exponent with a mantissa that is no smaller than the truncated one. -/
theorem roundWithAccuracy_bounds {s : Sign} {m k : Nat} {e : ℤ} (hm : 0 < m)
    (hk : e + k = roundingExponent m e) (hpos : 0 < m / 2 ^ k) :
    ∃ m' e', ∃ hm' : 0 < m',
      roundWithAccuracy Format.binary64 s m e .exact = .finite s m' e' hm' ∧ Fits m' e' ∧
      (e + k < e' ∨ e' = e + k ∧ m / 2 ^ k ≤ m') := by
  obtain ⟨hhigh, hfull⟩ := truncated_bounds hm hk
  have hleast : -1074 ≤ e + k := hk ▸ le_max_right _ _
  have hshift : (roundingExponent m e - e).toNat = k := by omega
  have hmant := shiftToTargetExponent_mantissa m e
  have hexp := shiftToTargetExponent_exponent m e
  rw [hshift] at hmant hexp
  unfold roundWithAccuracy
  generalize shiftToTargetExponent Format.binary64 m e .exact = first at hmant hexp
  obtain ⟨hlow, hup⟩ := roundedMantissa_bounds first.1
  rw [hmant] at hlow hup
  dsimp only
  rw [hexp]
  generalize first.1.roundedMantissa = r at hlow hup
  -- rounding up may have filled the mantissa beyond its last bit
  rcases Nat.lt_or_ge r (2 ^ 53) with hr | hr
  · obtain ⟨hfinal, hfinalExp⟩ := shift_of_lt hr hleast
    have hne : (shiftToTargetExponent Format.binary64 r (e + k) .exact).1.mantissa ≠ 0 := by
      omega
    refine ⟨_, _, Nat.pos_of_ne_zero hne, dif_neg hne, ?_, ?_⟩
    · rw [hfinal, hfinalExp]
      exact ⟨by omega, hr, hleast, hfull.imp_left (fun h => h.trans hlow)⟩
    · rw [hfinal, hfinalExp]
      exact Or.inr ⟨rfl, hlow⟩
  · obtain rfl : r = 2 ^ 53 := by omega
    obtain ⟨hfinal, hfinalExp⟩ := shift_of_carry hleast
    have hne : (shiftToTargetExponent Format.binary64 (2 ^ 53) (e + k) .exact).1.mantissa ≠ 0 := by
      omega
    refine ⟨_, _, Nat.pos_of_ne_zero hne, dif_neg hne, ?_, ?_⟩
    · rw [hfinal, hfinalExp]
      exact ⟨by norm_num, by norm_num, by omega, Or.inl le_rfl⟩
    · rw [hfinalExp]
      exact Or.inl (by omega)

/-! ## The sum -/

theorem round_eq_roundWithAccuracy {m : Nat} {e : ℤ} (he : e ≤ roundingExponent m e) :
    round Format.binary64 .positive m e =
      roundWithAccuracy Format.binary64 .positive m e .exact := by
  have hshift : (e - roundingExponent m e).toNat = 0 := by omega
  unfold UnpackedFloat.round decreaseExponent
  dsimp only
  rw [targetExponent_eq, hshift]
  simp

/-- Rounding a magnitude that is at least that of a value which fits does not lead
below this value. -/
theorem rankOf_le_round {m m₀ k : Nat} {e₀ : ℤ} (hm₀ : 0 < m₀) (hfits : Fits m₀ e₀)
    (h : m₀ * 2 ^ k ≤ m) :
    ∃ a ∈ rankOf (.finite .positive m₀ e₀ hm₀),
      ∃ b ∈ rankOf (Float.Model.pack
        (round Format.binary64 .positive m (e₀ - k))).unpack, a ≤ b := by
  obtain ⟨-, -, hleast, hfull⟩ := hfits
  have hm : 0 < m := (Nat.mul_pos hm₀ (Nat.two_pow_pos k)).trans_le h
  -- the sum is rounded at an exponent that is no smaller
  have hexp : e₀ ≤ roundingExponent m (e₀ - k) := by
    unfold roundingExponent
    rcases hfull with hfull | hfull
    · have hlog : 52 + k ≤ m.log2 := by
        rw [Nat.le_log2 (Nat.pos_iff_ne_zero.mp hm), Nat.pow_add]
        exact (Nat.mul_le_mul_right _ hfull).trans h
      omega
    · omega
  obtain ⟨j, hj⟩ : ∃ j : Nat, (e₀ - k) + j = roundingExponent m (e₀ - k) :=
    ⟨(roundingExponent m (e₀ - k) - (e₀ - k)).toNat, by omega⟩
  -- at the same exponent the truncated mantissa is no smaller
  have hsame : e₀ = (e₀ - k) + j → m₀ ≤ m / 2 ^ j := by
    intro heq
    obtain rfl : j = k := by omega
    exact (Nat.le_div_iff_mul_le (Nat.two_pow_pos j)).mpr h
  have hpos : 0 < m / 2 ^ j := by
    rcases (truncated_bounds hm hj).2 with hfull' | hleast'
    · omega
    · have := hsame (by omega)
      omega
  obtain ⟨m', e', hm', hround, hfits', hbound⟩ :=
    roundWithAccuracy_bounds (s := .positive) hm hj hpos
  rw [round_eq_roundWithAccuracy (by omega), hround]
  refine ⟨_, rfl, ?_⟩
  rcases lt_or_ge 971 e' with hlarge | hsmall
  · rw [unpack_pack_overflow hm' hlarge]
    refine ⟨_, rfl, Prod.Lex.toLex_le_toLex.mpr (Or.inl ?_)⟩
    norm_num
  · rw [unpack_pack_finite hm' hfits' hsmall]
    refine ⟨_, rfl, Prod.Lex.toLex_le_toLex.mpr (Or.inr ⟨rfl, ?_⟩)⟩
    rw [Prod.Lex.toLex_le_toLex]
    rcases lt_or_ge e₀ e' with hlt | hge
    · exact Or.inl hlt
    · have heq : e₀ = e' ∧ e' = (e₀ - k) + j := by omega
      refine Or.inr ⟨heq.1, ?_⟩
      have := hsame (heq.1.trans heq.2)
      dsimp only
      omega

/-- The sum of two positive finite values is their exact sum, rounded. -/
theorem add_finite_eq {m n : Nat} {e f : ℤ} (hm : 0 < m) (hn : 0 < n) :
    UnpackedFloat.add Format.binary64
      (.finite .positive m e hm) (.finite .positive n f hn) =
      round Format.binary64 .positive
        (m * 2 ^ (e - min e f).toNat + n * 2 ^ (f - min e f).toNat) (min e f) := by
  have hpos : 0 < m * 2 ^ (e - min e f).toNat + n * 2 ^ (f - min e f).toNat := by positivity
  unfold UnpackedFloat.add UnpackedFloat.normalize decreaseExponent Sign.apply
  simp only [Nat.shiftLeft_eq]
  generalize m * 2 ^ (e - min e f).toNat = p at hpos
  generalize n * 2 ^ (f - min e f).toNat = q at hpos
  have hgt : compare ((p : ℤ) + q) 0 = .gt := by
    rw [compare_gt_iff_gt]
    omega
  rw [hgt]
  dsimp only
  congr 1

/-- The sum of two positive finite values is no smaller than the first of them. -/
theorem rankOf_le_add_finite {m n : Nat} {e f : ℤ} (hm : 0 < m) (hn : 0 < n)
    (hfits : Fits m e) :
    ∃ a ∈ rankOf (.finite .positive m e hm),
      ∃ b ∈ rankOf (Float.Model.pack (UnpackedFloat.add Format.binary64
        (.finite .positive m e hm) (.finite .positive n f hn))).unpack, a ≤ b := by
  obtain ⟨k, hk⟩ : ∃ k : Nat, e - k = min e f := ⟨(e - min e f).toNat, by omega⟩
  have hshift : (e - min e f).toNat = k := by omega
  rw [add_finite_eq, hshift, ← hk]
  exact rankOf_le_round hm hfits (Nat.le_add_right _ _)

theorem rank_zero : rank 0 = some (toLex (0, toLex (0, 0))) := by
  decide

/-- Where a number that is not negative can lie. -/
theorem unpack_of_nonneg {x : Float} (h : 0 ≤ x) :
    x.toModel.unpack = .infinity .positive ∨ (∃ s, x.toModel.unpack = .zero s) ∨
      ∃ m e, ∃ hm : 0 < m, x.toModel.unpack = .finite .positive m e hm := by
  obtain ⟨a, ha, b, hb, hab⟩ := le_iff_rank.mp h
  rw [rank_zero, Option.mem_some_iff] at ha
  subst ha
  unfold rank at hb
  cases hx : x.toModel.unpack with
  | notANumber => simp [hx, rankOf] at hb
  | infinity s =>
      cases s with
      | positive => exact Or.inl rfl
      | negative =>
          rw [hx, rankOf, Option.mem_some_iff] at hb
          subst hb
          simp [Prod.Lex.toLex_le_toLex] at hab
  | zero s => exact Or.inr (Or.inl ⟨s, rfl⟩)
  | finite s m e hm =>
      cases s with
      | positive => exact Or.inr (Or.inr ⟨m, e, hm, rfl⟩)
      | negative =>
          rw [hx, rankOf, Option.mem_some_iff] at hb
          subst hb
          simp [Prod.Lex.toLex_le_toLex] at hab

/-- A finite number that is not below zero is at least zero. -/
theorem nonneg_of_isFinite {x : Float} (hfin : x.isFinite) (h : ¬ x < 0) : 0 ≤ x := by
  change x.toModel.unpack.isFinite = true at hfin
  obtain ⟨a, ha⟩ : ∃ a, rank x = some a := by
    unfold rank
    cases hx : x.toModel.unpack with
    | notANumber => simp [hx, UnpackedFloat.isFinite] at hfin
    | infinity s => simp [hx, UnpackedFloat.isFinite] at hfin
    | zero s => exact ⟨_, rfl⟩
    | finite s m e hm => cases s <;> exact ⟨_, rfl⟩
  refine le_iff_rank.mpr ⟨_, rank_zero, a, ha, not_lt.mp ?_⟩
  exact fun hlt => h (lt_iff_rank.mpr ⟨a, ha, _, rank_zero, hlt⟩)

/-- What lies between zero and a finite number is finite. -/
theorem isFinite_of_le {x y : Float} (hx : 0 ≤ x) (hxy : x ≤ y) (hy : y.isFinite) :
    x.isFinite := by
  change y.toModel.unpack.isFinite = true at hy
  change x.toModel.unpack.isFinite = true
  rcases unpack_of_nonneg hx with hx' | ⟨s, hx'⟩ | ⟨m, e, hm, hx'⟩
  · obtain ⟨a, ha, b, hb, hab⟩ := le_iff_rank.mp hxy
    unfold rank at ha hb
    rw [hx', rankOf, Option.mem_some_iff] at ha
    subst ha
    rcases unpack_of_nonneg (le_trans hx hxy) with hy' | ⟨t, hy'⟩ | ⟨n, f, hn, hy'⟩
    · simp [hy', UnpackedFloat.isFinite] at hy
    · rw [hy', rankOf, Option.mem_some_iff] at hb
      subst hb
      simp [Prod.Lex.toLex_le_toLex] at hab
    · rw [hy', rankOf, Option.mem_some_iff] at hb
      subst hb
      simp [Prod.Lex.toLex_le_toLex] at hab
  · rw [hx']
    rfl
  · rw [hx']
    rfl

/-- Adding a finite number that is not negative does not lead below the other summand. -/
theorem le_add_of_nonneg {x y : Float} (hx : 0 ≤ x) (hy : 0 ≤ y) (hfin : y.isFinite) :
    x ≤ x + y := by
  change y.toModel.unpack.isFinite = true at hfin
  rw [le_iff_rank]
  show ∃ a ∈ rankOf x.toModel.unpack, ∃ b ∈ rankOf (Float.Model.pack
    (UnpackedFloat.add Format.binary64 x.toModel.unpack y.toModel.unpack)).unpack, a ≤ b
  rcases unpack_of_nonneg hx with hx' | ⟨s, hx'⟩ | ⟨m, e, hm, hx'⟩
  · have hsum : UnpackedFloat.add Format.binary64 (.infinity .positive) y.toModel.unpack =
        .infinity .positive := by
      rcases unpack_of_nonneg hy with hy' | ⟨t, hy'⟩ | ⟨n, f, hn, hy'⟩ <;> rw [hy'] <;> rfl
    rw [hx', hsum, unpack_pack_infinity]
    exact ⟨_, rfl, _, rfl, le_rfl⟩
  · rcases unpack_of_nonneg hy with hy' | ⟨t, hy'⟩ | ⟨n, f, hn, hy'⟩
    · simp [hy', UnpackedFloat.isFinite] at hfin
    · rw [hx', hy']
      cases s <;> cases t <;> exact ⟨_, rfl, _, rfl, le_rfl⟩
    · obtain ⟨hfits, hmost⟩ := fits_of_unpack hy'
      have hsum : UnpackedFloat.add Format.binary64 (.zero s) (.finite .positive n f hn) =
          .finite .positive n f hn := rfl
      rw [hx', hy', hsum, unpack_pack_finite hn hfits hmost]
      exact ⟨_, rfl, _, rfl, Prod.Lex.toLex_le_toLex.mpr (Or.inl (by norm_num))⟩
  · obtain ⟨hfits, hmost⟩ := fits_of_unpack hx'
    rcases unpack_of_nonneg hy with hy' | ⟨t, hy'⟩ | ⟨n, f, hn, hy'⟩
    · simp [hy', UnpackedFloat.isFinite] at hfin
    · have hsum : UnpackedFloat.add Format.binary64 (.finite .positive m e hm) (.zero t) =
          .finite .positive m e hm := rfl
      rw [hx', hy', hsum, unpack_pack_finite hm hfits hmost]
      exact ⟨_, rfl, _, rfl, le_rfl⟩
    · rw [hx', hy']
      exact rankOf_le_add_finite hm hn hfits

end Retime.Binary64

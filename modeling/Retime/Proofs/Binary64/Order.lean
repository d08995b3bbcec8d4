import Mathlib

/-! # The order of binary64 numbers

Comparing two `Float`s compares their ranks in a linear order. What is not a number
has no rank, and both zeros have the same one; everything below about `<` and `≤`
follows from that.
-/

namespace Retime.Binary64

open Float.Model UnpackedFloat

/-! ## Ranks -/

/-- The place of a number in the order: the sign and kind first, then exponent and
mantissa, which count backwards below zero. -/
def rankOf : UnpackedFloat → Option (ℤ ×ₗ ℤ ×ₗ ℤ)
  | .notANumber => none
  | .infinity .negative => some (toLex (-2, toLex (0, 0)))
  | .finite .negative m e _ => some (toLex (-1, toLex (-e, -m)))
  | .zero _ => some (toLex (0, toLex (0, 0)))
  | .finite .positive m e _ => some (toLex (1, toLex (e, m)))
  | .infinity .positive => some (toLex (2, toLex (0, 0)))

theorem compare_natCast (m n : Nat) : compare (m : ℤ) n = compare m n := by
  rcases lt_trichotomy m n with h | h | h
  · rw [compare_lt_iff_lt.mpr h, compare_lt_iff_lt.mpr (Int.ofNat_lt.mpr h)]
  · rw [h, compare_eq_iff_eq.mpr rfl, compare_eq_iff_eq.mpr rfl]
  · rw [compare_gt_iff_gt.mpr h, compare_gt_iff_gt.mpr (Int.ofNat_lt.mpr h)]

theorem compare_neg_neg (x y : ℤ) : compare (-x) (-y) = (compare x y).swap := by
  rcases lt_trichotomy x y with h | h | h
  · rw [compare_lt_iff_lt.mpr h, compare_gt_iff_gt.mpr (Int.neg_lt_neg h)]
    rfl
  · rw [h, compare_eq_iff_eq.mpr rfl, compare_eq_iff_eq.mpr rfl]
    rfl
  · rw [compare_gt_iff_gt.mpr h, compare_lt_iff_lt.mpr (Int.neg_lt_neg h)]
    rfl

theorem compare_rank (i e e' m m' : ℤ) :
    compare (toLex (i, toLex (e, m))) (toLex (i, toLex (e', m'))) =
      (compare e e').then (compare m m') := by
  simp [Prod.Lex.compare_def, compareLex, compareOn]

/-- The comparison of unpacked numbers is the comparison of their ranks. -/
theorem compare_eq_rankOf (a b : UnpackedFloat) :
    a.compare b = (rankOf a).bind fun x => (rankOf b).map fun y => compare x y := by
  cases a with
  | notANumber => cases b <;> rfl
  | infinity s =>
      cases s <;> cases b with
      | infinity t => cases t <;> rfl
      | finite t m e hm => cases t <;> rfl
      | _ => rfl
  | zero s =>
      cases b with
      | infinity t => cases t <;> rfl
      | finite t m e hm => cases t <;> rfl
      | _ => rfl
  | finite s m e hm =>
      cases b with
      | infinity t => cases s <;> cases t <;> rfl
      | finite t m' e' hm' =>
          cases s <;> cases t <;>
            simp only [UnpackedFloat.compare, rankOf, Option.bind_some, Option.map_some,
              compare_rank, compare_neg_neg, compare_natCast, Ordering.swap_then]
          · rfl
          · rfl
      | _ => cases s <;> rfl

/-- The place of a `Float` in the order. -/
def rank (x : Float) : Option (ℤ ×ₗ ℤ ×ₗ ℤ) :=
  rankOf x.toModel.unpack

theorem rank_eq_none {x : Float} : rank x = none ↔ x.isNaN = true := by
  change rankOf x.toModel.unpack = none ↔ x.toModel.unpack.isNaN = true
  cases x.toModel.unpack with
  | infinity s => cases s <;> simp [rankOf, UnpackedFloat.isNaN]
  | finite s => cases s <;> simp [rankOf, UnpackedFloat.isNaN]
  | _ => simp [rankOf, UnpackedFloat.isNaN]

theorem le_iff_rank {x y : Float} : x ≤ y ↔ ∃ a ∈ rank x, ∃ b ∈ rank y, a ≤ b := by
  have h : x ≤ y ↔ (x.toModel.unpack.compare y.toModel.unpack).any (·.isLE) = true := by
    show Float.le x y = true ↔ _
    simp only [Float.le, decide_eq_true_eq]
    rfl
  rw [h, compare_eq_rankOf]
  change ((rank x).bind fun a => (rank y).map fun b => compare a b).any (·.isLE) = true ↔ _
  cases rank x <;> cases rank y <;> simp [Ordering.isLE_iff_ne_gt, compare_gt_iff_gt]

theorem lt_iff_rank {x y : Float} : x < y ↔ ∃ a ∈ rank x, ∃ b ∈ rank y, a < b := by
  have h : x < y ↔ (x.toModel.unpack.compare y.toModel.unpack == some .lt) = true := by
    show Float.lt x y = true ↔ _
    simp only [Float.lt, decide_eq_true_eq]
    rfl
  rw [h, compare_eq_rankOf]
  change (((rank x).bind fun a => (rank y).map fun b => compare a b) == some .lt) = true ↔ _
  cases rank x <;> cases rank y <;> simp [compare_lt_iff_lt]

/-! ## Laws of the order -/

theorem le_trans {x y z : Float} (hxy : x ≤ y) (hyz : y ≤ z) : x ≤ z := by
  obtain ⟨a, ha, b, hb, hab⟩ := le_iff_rank.mp hxy
  obtain ⟨b', hb', c, hc, hbc⟩ := le_iff_rank.mp hyz
  obtain rfl : b = b' := Option.mem_unique hb hb'
  exact le_iff_rank.mpr ⟨a, ha, c, hc, hab.trans hbc⟩

theorem le_of_lt {x y : Float} (h : x < y) : x ≤ y := by
  obtain ⟨a, ha, b, hb, hab⟩ := lt_iff_rank.mp h
  exact le_iff_rank.mpr ⟨a, ha, b, hb, hab.le⟩

theorem not_lt_of_le {x y : Float} (h : x ≤ y) : ¬ y < x := by
  intro hlt
  obtain ⟨a, ha, b, hb, hab⟩ := le_iff_rank.mp h
  obtain ⟨b', hb', a', ha', hba⟩ := lt_iff_rank.mp hlt
  obtain rfl : a = a' := Option.mem_unique ha ha'
  obtain rfl : b = b' := Option.mem_unique hb hb'
  exact absurd hba (not_lt.mpr hab)

/-- A number is comparable with every other number; a side of some comparison that
holds is a number. -/
theorem le_of_not_lt {x y u v : Float} (hx : u ≤ x) (hy : v ≤ y) (h : ¬ y < x) : x ≤ y := by
  obtain ⟨_, _, a, ha, _⟩ := le_iff_rank.mp hx
  obtain ⟨_, _, b, hb, _⟩ := le_iff_rank.mp hy
  refine le_iff_rank.mpr ⟨a, ha, b, hb, not_lt.mp ?_⟩
  exact fun hlt => h (lt_iff_rank.mpr ⟨b, hb, a, ha, hlt⟩)

theorem lt_of_not_le {x y u v : Float} (hx : u ≤ x) (hy : v ≤ y) (h : ¬ x ≤ y) : y < x := by
  obtain ⟨_, _, a, ha, _⟩ := le_iff_rank.mp hx
  obtain ⟨_, _, b, hb, _⟩ := le_iff_rank.mp hy
  refine lt_iff_rank.mpr ⟨b, hb, a, ha, not_le.mp ?_⟩
  exact fun hle => h (le_iff_rank.mpr ⟨a, ha, b, hb, hle⟩)

theorem le_refl_of_le {x u : Float} (h : u ≤ x) : x ≤ x := by
  obtain ⟨_, _, a, ha, _⟩ := le_iff_rank.mp h
  exact le_iff_rank.mpr ⟨a, ha, a, ha, le_rfl⟩

theorem le_refl_of_isNaN {x : Float} (h : x.isNaN = false) : x ≤ x := by
  obtain ⟨a, ha⟩ : ∃ a, rank x = some a := Option.ne_none_iff_exists'.mp fun hnone =>
    Bool.false_ne_true (h.symm.trans (rank_eq_none.mp hnone))
  exact le_iff_rank.mpr ⟨a, ha, a, ha, le_rfl⟩

end Retime.Binary64

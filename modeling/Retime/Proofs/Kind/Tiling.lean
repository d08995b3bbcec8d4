import Mathlib.Algebra.BigOperators.Group.Finset.Basic
import Retime.Proofs.Kind.Feasible
import Retime.Proofs.Kind.Values

/-! # Segments tile a word

Every position of a word lies in one of its segments. So what stands in the first segments of a
value is the sum of its parts there, each at the place where its segment starts.
-/

namespace Retime.Segment

/-- The positions of a segment. -/
def places (g : Segment) : List Nat :=
  List.range' g.low g.size

/-- What stands in a segment of a value. -/
def part (g : Segment) (v : Nat) : Nat :=
  v / 2 ^ g.low % 2 ^ g.size

variable {width size i : Nat}

/-! ## Positions -/

theorem low_lt (hsize : 0 < size) (hi : i < count width size) : i * size < width := by
  have hfits := (Nat.le_div_iff_mul_le hsize).mp hi
  rw [Nat.succ_mul] at hfits
  omega

theorem width_le (hsize : 0 < size) : width ≤ count width size * size := by
  have hlt := Nat.lt_mul_div_succ (width + size - 1) hsize
  rw [Nat.mul_add, Nat.mul_comm] at hlt
  unfold count
  omega

/-- A segment ends where the next one starts, or where the word ends. -/
theorem low_add_size (hsize : 0 < size) (hi : i < count width size) :
    (nth width size i).low + (nth width size i).size = min ((i + 1) * size) width := by
  have hlow := low_lt hsize hi
  simp only [nth, Nat.succ_mul]
  omega

/-- A segment that another one follows has full size. -/
theorem size_of_next (hsize : 0 < size) (hi : i + 1 < count width size) :
    (nth width size i).size = size := by
  have hnext := low_lt hsize hi
  rw [Nat.succ_mul] at hnext
  simp only [nth]
  omega

theorem high_eq {g : Segment} (hpos : 0 < g.size) : g.high - g.low + 1 = g.size := by
  unfold high
  omega

/-- The positions of the first segments. -/
theorem places_take (hsize : 0 < size) (hi : i ≤ count width size) :
    ((List.range i).map (nth width size)).flatMap places = List.range (min (i * size) width) := by
  induction i with
  | zero => simp
  | succ i ih =>
      have hreach := low_add_size hsize hi
      have hmin : min (i * size) width = i * size := Nat.min_eq_left (low_lt hsize hi).le
      rw [List.range_succ, List.map_append, List.flatMap_append, ih (Nat.le_of_succ_le hi), hmin,
        ← hreach]
      simp only [List.range_eq_range', ← List.range'_append_1, Nat.zero_add]
      simp [nth, places]

/-- Every position is in one segment. -/
theorem places_ofWidth (hsize : 0 < size) :
    (ofWidth width size).flatMap places = List.range width := by
  rw [ofWidth, places_take hsize (Nat.le_refl _), Nat.min_eq_right (width_le hsize)]

theorem size_pos_of_mem (hsize : 0 < size) {g : Segment} (hg : g ∈ ofWidth width size) :
    0 < g.size := by
  obtain ⟨i, hi, rfl⟩ := List.mem_map.mp hg
  exact size_nth_pos hsize (List.mem_range.mp hi)

/-! ## Values -/

theorem part_lt (g : Segment) (v : Nat) : g.part v < 2 ^ g.size :=
  Nat.mod_lt _ (Nat.two_pow_pos _)

/-- What stands in the first segments. -/
theorem sum_part_take (hsize : 0 < size) (v : Nat) (hi : i ≤ count width size) :
    ∑ j ∈ Finset.range i, (nth width size j).part v * 2 ^ (j * size) =
      v % 2 ^ min (i * size) width := by
  induction i with
  | zero => simp [Nat.mod_one]
  | succ i ih =>
      have hreach := low_add_size hsize hi
      have hmin : min (i * size) width = i * size := Nat.min_eq_left (low_lt hsize hi).le
      rw [Finset.sum_range_succ, ih (Nat.le_of_succ_le hi), hmin, ← hreach, Nat.pow_add,
        Nat.mod_mul, Nat.mul_comm (part _ v)]
      rfl

open Verilog Operator in
/-- The slice of a word in a segment. -/
theorem evaluates_slice {nets : Environment → List Net} {name : String} {v : Environment → Nat}
    (hsize : 0 < size) (hi : i < count width size) (hv : Valued nets name width v) :
    Evaluates nets (.slice name (nth width size i).high (nth width size i).low)
      (nth width size i).size fun env => (nth width size i).part (v env) := by
  have hpos := size_nth_pos hsize hi
  have hend := low_add_size hsize hi
  have hhigh : (nth width size i).high = (nth width size i).low + (nth width size i).size - 1 := rfl
  have hslice := @Valued.slice nets name width v hv (nth width size i).high
    (nth width size i).low (by omega) (by omega)
  rw [high_eq hpos] at hslice
  exact hslice

end Retime.Segment

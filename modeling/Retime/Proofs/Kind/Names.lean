import Retime.Kind.Builtin
import Retime.Proofs.Dataflow.Plain

/-! # The names of the built-in kinds

A library finds operators by name, so a name has to say everything that a kind depends on.
The names of the built-in kinds begin differently in each family, and go on with the sizes
that the family depends on, in decimal.
-/

namespace Retime

/-- The sizes that the kinds of a family depend on. -/
def Family.parameters (sizes : Sizes) : Family → List Nat
  | .adder => [sizes.width]
  | .multiAdder => [sizes.width, sizes.count]
  | .multiplier => [sizes.width]
  | .sumOfProducts => [sizes.width, sizes.count]
  | .floatNegation => [sizes.exponent, sizes.fraction]

/-- The first letters of the names in a family, as many as tell it from the others. -/
def Family.initials : Family → List Char
  | .adder => ['I', 'n', 't', 'A']
  | .multiAdder => ['M', 'u', 'l', 't']
  | .multiplier => ['I', 'n', 't', 'M']
  | .sumOfProducts => ['S', 'u', 'm', 'O']
  | .floatNegation => ['F', 'p', 'N', 'e']

namespace Kind

/-! ## Numbers in names -/

/-- Two numbers can be read back if what stands between them is no digit. -/
theorem repr_pair_injective {stem : String} (sep : String) {c : Char} (hsep : sep.toList = [c])
    (hc : c.isDigit = false) {m n m' n' : Nat}
    (h : stem ++ m.repr ++ sep ++ n.repr = stem ++ m'.repr ++ sep ++ n'.repr) :
    m = m' ∧ n = n' := by
  have hchars := congrArg String.toList h
  simp only [String.toList_append, hsep, List.append_assoc, List.append_cancel_left_eq,
    List.singleton_append] at hchars
  obtain ⟨hm, -, hn⟩ := (List.append_cons_inj_of_notMem
    (Dataflow.notMem_repr hc _) (Dataflow.notMem_repr hc _)).mp hchars
  exact ⟨Nat.repr_injective (String.toList_inj.mp hm), Nat.repr_injective (String.toList_inj.mp hn)⟩

end Kind

namespace Family

variable {f f' : Family} {sizes sizes' : Sizes}

theorem take_name (f : Family) (sizes : Sizes) :
    (f.kind sizes).name.toList.take 4 = f.initials := by
  cases f with
  | adder =>
      show (s!"IntAdder_{sizes.width}").toList.take 4 = _
      simp [initials, toString]
  | multiAdder =>
      show (s!"MultiAdder_{sizes.count}x{sizes.width}").toList.take 4 = _
      simp [initials, toString]
  | multiplier =>
      show (s!"IntMultiplier_{sizes.width}x{sizes.width}").toList.take 4 = _
      simp [initials, toString]
  | sumOfProducts =>
      show (s!"SumOfProducts_{sizes.count}x{sizes.width}").toList.take 4 = _
      simp [initials, toString]
  | floatNegation =>
      show (s!"FpNegate_{sizes.exponent}_{sizes.fraction}").toList.take 4 = _
      simp [initials, toString]

theorem initials_injective : Function.Injective initials := by
  intro f f' h
  cases f <;> cases f' <;> first | rfl | simp [initials] at h

/-- Two sizes that give one name in a family agree where the family looks at them. -/
theorem parameters_eq (h : (f.kind sizes).name = (f.kind sizes').name) :
    f.parameters sizes = f.parameters sizes' := by
  cases f with
  | adder =>
      have hwidth : sizes.width = sizes'.width := by
        apply Nat.repr_injective
        exact (String.append_right_inj "IntAdder_").mp h
      simp [parameters, hwidth]
  | multiAdder =>
      obtain ⟨hcount, hwidth⟩ := Kind.repr_pair_injective "x" rfl rfl h
      simp [parameters, hcount, hwidth]
  | multiplier =>
      obtain ⟨hwidth, -⟩ := Kind.repr_pair_injective "x" rfl rfl h
      simp [parameters, hwidth]
  | sumOfProducts =>
      obtain ⟨hcount, hwidth⟩ := Kind.repr_pair_injective "x" rfl rfl h
      simp [parameters, hcount, hwidth]
  | floatNegation =>
      obtain ⟨hexponent, hfraction⟩ := Kind.repr_pair_injective "_" rfl rfl h
      simp [parameters, hexponent, hfraction]

/-- The name of a built-in kind tells its family and its parameters. -/
theorem name_injective (h : (f.kind sizes).name = (f'.kind sizes').name) :
    f = f' ∧ f.parameters sizes = f'.parameters sizes' := by
  have hinitials : f.initials = f'.initials := by rw [← take_name f sizes, h, take_name]
  obtain rfl := initials_injective hinitials
  exact ⟨rfl, parameters_eq h⟩

/-- Nothing but its parameters matters to a kind. -/
theorem kind_eq (h : f.parameters sizes = f.parameters sizes') : f.kind sizes = f.kind sizes' := by
  cases f <;> simp_all [parameters, kind]

end Family

/-- A sum of products is never taken for a multiplier. -/
theorem Kind.sumOfProducts_name_ne (width count width' : Nat) :
    (Kind.sumOfProducts width count).name ≠ (Kind.multiplier width').name := by
  intro hname
  obtain ⟨hfamily, -⟩ := @Family.name_injective .sumOfProducts .multiplier
    { width, count } { width := width' } hname
  cases hfamily

end Retime

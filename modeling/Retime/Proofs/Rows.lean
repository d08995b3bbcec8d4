import Mathlib.Data.List.Forall2

/-! # Lists that are related entry by entry

The ports of an interface and what an instance connects to them, the outputs of an operator
and how they are exposed, operators and their files: two lists of one length, with a relation
between the entries at each place.
-/

namespace Retime

variable {α β γ ε : Type} {R : α → β → Prop} {l : List α} {l' : List β}

/-- Every entry of the second list has one in the first that it is related to. -/
theorem exists_left_of_forall₂ (h : List.Forall₂ R l l') {b : β} (hb : b ∈ l') :
    ∃ a ∈ l, R a b := by
  induction h with
  | nil => cases hb
  | @cons a b' l l' hab _ ih =>
      rcases List.mem_cons.mp hb with rfl | hb
      · exact ⟨a, List.mem_cons_self, hab⟩
      · obtain ⟨a', ha', hab'⟩ := ih hb
        exact ⟨a', List.mem_cons_of_mem a ha', hab'⟩

/-- Every entry of the first list has one in the second that it is related to. -/
theorem exists_right_of_forall₂ (h : List.Forall₂ R l l') {a : α} (ha : a ∈ l) :
    ∃ b ∈ l', R a b :=
  exists_left_of_forall₂ (R := flip R) (List.Forall₂.flip (R := flip R) h) ha

/-- Related entries stand at the same place. -/
theorem getElem?_of_forall₂ (h : List.Forall₂ R l l') {i : Nat} {a : α} (ha : l[i]? = some a) :
    ∃ b, l'[i]? = some b ∧ R a b := by
  induction h generalizing i with
  | nil => cases ha
  | cons hab _ ih =>
      cases i with
      | zero =>
          obtain rfl := Option.some.inj ha
          exact ⟨_, rfl, hab⟩
      | succ i => exact ih ha

/-- What is known of each entry on the right is known beside the relation. -/
theorem forall₂_and_of_forall {p : β → Prop} (h : List.Forall₂ R l l') (hp : ∀ b ∈ l', p b) :
    List.Forall₂ (fun a b => R a b ∧ p b) l l' := by
  induction h with
  | nil => exact .nil
  | cons hab _ ih =>
      obtain ⟨hb, hrest⟩ := List.forall_mem_cons.mp hp
      exact .cons ⟨hab, hb⟩ (ih hrest)

/-- What is the same for related entries is the same for the lists. -/
theorem map_eq_map_of_forall₂ {f : α → γ} {g : β → γ} (h : List.Forall₂ R l l')
    (hfg : ∀ a b, R a b → f a = g b) : l.map f = l'.map g := by
  rw [← List.forall₂_eq_eq_eq, List.forall₂_map_left_iff, List.forall₂_map_right_iff]
  exact h.imp hfg

/-- If no item makes it fail, a function can be applied to all of them. -/
theorem mapM_of_forall {f : α → Except ε β} (hf : ∀ a ∈ l, ∃ b, f a = .ok b) :
    ∃ bs, l.mapM f = .ok bs ∧ List.Forall₂ (fun a b => f a = .ok b) l bs := by
  induction l with
  | nil => exact ⟨[], rfl, .nil⟩
  | cons a l ih =>
      obtain ⟨b, hb⟩ := hf a List.mem_cons_self
      obtain ⟨bs, hbs, hall⟩ := ih fun a' ha' => hf a' (List.mem_cons_of_mem a ha')
      refine ⟨b :: bs, ?_, .cons hb hall⟩
      rw [List.mapM_cons, hb, hbs]
      rfl

end Retime

import Mathlib.Data.List.Basic
import Retime.Decimal.Layout

/-! # The characters of numbers

A number in a message is written positionally, so that it has no other characters than digits, a
sign and a point, or it is a word of letters.
-/

namespace Retime

variable {c : Char}

/-- Without an exponent a text has the digits of both sides, and perhaps a sign and a point. -/
theorem Numeral.mem_text {n : Numeral} (hexponent : n.exponent = none) (hc : c ∈ n.text.toList) :
    c = '-' ∨ c = '.' ∨ c ∈ n.whole ∨ ∃ fraction, n.fraction = some fraction ∧ c ∈ fraction := by
  simp only [text, hexponent, String.toList_append, String.toList_ofList, List.mem_append] at hc
  rcases hc with ((hsign | hwhole) | hfraction) | hnone
  · left
    split at hsign <;> simp_all
  · exact .inr (.inr (.inl hwhole))
  · split at hfraction
    · cases hfraction
    next fraction hsome =>
      simp only [String.toList_append, String.toList_ofList, List.mem_append] at hfraction
      exact .inr (hfraction.imp List.mem_singleton.mp fun hmem => .inr ⟨fraction, hsome, hmem⟩)
  · cases hnone

namespace Layout

/-- All characters are decimal digits. -/
def Digits (ds : List Char) : Prop :=
  ∀ c ∈ ds, c.isDigit = true

theorem Digits.append {ds ds' : List Char} (hds : Digits ds) (hds' : Digits ds') :
    Digits (ds ++ ds') :=
  List.forall_mem_append.mpr ⟨hds, hds'⟩

theorem digits_zeros (n : Nat) : Digits (List.replicate n '0') := by
  intro c hc
  rw [List.eq_of_mem_replicate hc]
  rfl

theorem digits_toString (n : Nat) : Digits (toString n).toList := by
  intro c hc
  rw [show toString n = n.repr from rfl, Nat.toList_repr] at hc
  exact Nat.isDigit_of_mem_toDigits (by decide) (by decide) hc

/-- Positional writing has digits only, on both sides of the point. -/
theorem digits_place {ds : List Char} (hds : Digits ds) (layout : Layout) (lead : Int) :
    Digits (layout.place ds lead).whole ∧
      (∀ fraction, (layout.place ds lead).fraction = some fraction → Digits fraction) ∧
      (layout.place ds lead).exponent = none := by
  have hzero : Digits ['0'] := digits_zeros 1
  unfold place
  dsimp only
  split
  · refine ⟨hzero, fun fraction hfraction => ?_, rfl⟩
    obtain rfl := Option.some.inj hfraction
    exact (digits_zeros _).append hds
  · split
    · refine ⟨hds.append (digits_zeros _), fun fraction hfraction => ?_, rfl⟩
      obtain ⟨-, hfraction⟩ := Option.ite_none_right_eq_some.mp hfraction
      obtain rfl := Option.some.inj hfraction
      exact hzero
    · refine ⟨fun c hc => hds c (List.mem_of_mem_take hc), fun fraction hfraction => ?_, rfl⟩
      obtain rfl := Option.some.inj hfraction
      exact fun c hc => hds c (List.mem_of_mem_drop hc)

theorem digits_ofDecimal (d : Decimal) :
    Digits (message.ofDecimal d).whole ∧
      (∀ fraction, (message.ofDecimal d).fraction = some fraction → Digits fraction) ∧
      (message.ofDecimal d).exponent = none :=
  digits_place (digits_toString d.digits) message _

theorem numeral?_eq_some {layout : Layout} {x : Float} {n : Numeral}
    (h : layout.numeral? x = some n) :
    ∃ d, n = { layout.ofDecimal d with negative := hasSignBit x } := by
  unfold numeral? at h
  split at h
  · exact ⟨_, (Option.some.inj h).symm⟩
  · cases h

/-- What is in a message for a number. -/
theorem mem_message {x : Float} (hc : c ∈ (message.text x).toList) :
    c.isDigit = true ∨ c ∈ ['-', '.', 'N', 'a', 'i', 'n', 'f'] := by
  unfold text at hc
  split at hc
  next n hn =>
    obtain ⟨d, rfl⟩ := numeral?_eq_some hn
    obtain ⟨hwhole, hfraction, hexponent⟩ := digits_ofDecimal d
    have hmem := @Numeral.mem_text c { message.ofDecimal d with negative := hasSignBit x }
      hexponent hc
    rcases hmem with rfl | rfl | hmem | ⟨fraction, hsome, hmem⟩
    · exact .inr (by decide)
    · exact .inr (by decide)
    · exact .inl (hwhole c hmem)
    · exact .inl (hfraction fraction hsome c hmem)
  next =>
    right
    have hwords : ∀ word ∈ [message.nan, message.negativeInfinity, message.infinity],
        word.toList ⊆ ['-', '.', 'N', 'a', 'i', 'n', 'f'] := by decide
    refine hwords _ ?_ hc
    split
    · simp
    · split <;> simp

end Layout

end Retime

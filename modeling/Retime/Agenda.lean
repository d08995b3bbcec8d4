import Std.Data.TreeMap

/-! # Agendas

An agenda holds items by the cycle they belong to. The items of one cycle stay in
the order in which they were given.
-/

namespace Retime

structure Agenda (α : Type) where
  entries : Std.TreeMap Nat (List α) := ∅

namespace Agenda

variable {α : Type}

/-- The items of a cycle. -/
def items (g : Agenda α) (cycle : Nat) : List α :=
  g.entries.getD cycle []

/-- Puts an item in front of those of its cycle. -/
def add (g : Agenda α) (cycle : Nat) (a : α) : Agenda α where
  entries := g.entries.insert cycle (a :: g.items cycle)

/-- The agenda of items that are given with their cycles. -/
def ofList (l : List (Nat × α)) : Agenda α :=
  l.foldr (fun (cycle, a) g => g.add cycle a) {}

theorem items_add (g : Agenda α) (place cycle : Nat) (a : α) :
    (g.add place a).items cycle = if place = cycle then a :: g.items cycle else g.items cycle := by
  by_cases h : place = cycle
  · subst h
    simp [items, add]
  · simp [items, add, Std.TreeMap.getD_insert, h]

/-- An agenda loses nothing and keeps the order within a cycle. -/
theorem items_ofList (l : List (Nat × α)) (cycle : Nat) :
    (ofList l).items cycle = (l.filter (·.1 = cycle)).map (·.2) := by
  induction l with
  | nil => simp [ofList, items]
  | cons entry l ih =>
    have step : ofList (entry :: l) = (ofList l).add entry.1 entry.2 := rfl
    by_cases h : entry.1 = cycle <;> simp [step, items_add, ih, h]

end Agenda

end Retime

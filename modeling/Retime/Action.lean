import Retime.Event

/-! # Actions

An action works on a state, may stop with an error, and reports events on the
way. Whatever was changed and reported before it stopped stays so. The pieces are
inlined, so that a state which nothing else holds is changed in place.
-/

namespace Retime

/-- What an action leaves behind. -/
structure Outcome (ε σ α : Type) where
  result : Except ε α
  state : σ
  events : List Event := []

/-- A computation on a state of type `σ` with answers of type `α`. -/
def Action (ε σ α : Type) : Type :=
  σ → Outcome ε σ α

namespace Action

variable {ε ε' σ τ α β : Type}

@[inline] protected def pure (a : α) : Action ε σ α := fun s =>
  { result := .ok a, state := s }

/-- Runs `m`, and on its answer the action `f`, unless `m` stopped. -/
@[inline] protected def bind (m : Action ε σ α) (f : α → Action ε σ β) : Action ε σ β := fun s =>
  match m s with
  | ⟨.error e, s, events⟩ => { result := .error e, state := s, events }
  | ⟨.ok a, s, events⟩ =>
    let second := f a s
    { second with events := events ++ second.events }

instance : Monad (Action ε σ) where
  pure := Action.pure
  bind := Action.bind

/-- The state. -/
@[inline] def get : Action ε σ σ := fun s =>
  { result := .ok s, state := s }

@[inline] def modify (f : σ → σ) : Action ε σ Unit := fun s =>
  { result := .ok (), state := f s }

@[inline] def stop (e : ε) : Action ε σ α := fun s =>
  { result := .error e, state := s }

@[inline] def report (e : Event) : Action ε σ Unit := fun s =>
  { result := .ok (), state := s, events := [e] }

/-- Goes on with a result, or stops with its error. -/
@[inline] def ofExcept (x : Except ε α) : Action ε σ α := fun s =>
  { result := x, state := s }

/-- Gives the error another form. -/
@[inline] def mapError (f : ε → ε') (m : Action ε σ α) : Action ε' σ α := fun s =>
  let o := m s
  { result := o.result.mapError f, state := o.state, events := o.events }

/-- Runs an action on a part of a larger state. -/
@[inline] def zoom (part : τ → σ) (update : τ → σ → τ) (m : Action ε σ α) :
    Action ε τ α := fun t =>
  let o := m (part t)
  { result := o.result, state := update t o.state, events := o.events }

/-- Acts on one item after another and collects the answers. -/
def forEach (f : α → Action ε σ β) : List α → Action ε σ (List β)
  | [] => pure []
  | a :: as => do
    let b ← f a
    let bs ← forEach f as
    return b :: bs

end Action

end Retime

import Retime.Proofs.Action
import Retime.Timeline

/-! # Checked steps

An index may lead past the end of an array, and only the cycles up to the last one can be
counted. A checked step stops with a slip where that happens. A checked action agrees with
an action of the engine if it does the same and does not slip.
-/

namespace Retime

/-- What goes wrong in a checked step. -/
inductive Slip where
  /-- There is no entry at the index. -/
  | index (i size : Nat)
  /-- The difference is negative. -/
  | negative (a b : Nat)
  /-- The sum is later than the last cycle. -/
  | beyond (a b : Nat)
deriving DecidableEq, Repr

/-- Why a checked action stops: with an error, like the action that is checked, or because
a step slipped. -/
inductive Halt (ε : Type) where
  | error (e : ε)
  | slip (s : Slip)
deriving DecidableEq, Repr

/-- Gives an error another form. -/
def Halt.map {ε ε' : Type} (f : ε → ε') : Halt ε → Halt ε'
  | error e => error (f e)
  | slip s => slip s

namespace Checked

variable {α β ε ε' σ τ : Type}

/-- The entry at an index. -/
def entry (xs : Array α) (i : Nat) : Except Slip α :=
  match xs[i]? with
  | some a => .ok a
  | none => .error (.index i xs.size)

/-- A difference of two numbers. -/
def minus (a b : Nat) : Except Slip Nat :=
  if b ≤ a then .ok (a - b) else .error (.negative a b)

/-- The cycle that is `b` cycles after `a`. -/
def plus (a b : Nat) : Except Slip Nat :=
  if a + b ≤ maxCycle then .ok (a + b) else .error (.beyond a b)

theorem entry_eq_ok {xs : Array α} {i : Nat} {a : α} : entry xs i = .ok a ↔ xs[i]? = some a := by
  unfold entry
  cases xs[i]? <;> simp

theorem minus_of_le {a b : Nat} (h : b ≤ a) : minus a b = .ok (a - b) :=
  if_pos h

theorem plus_of_le {a b : Nat} (h : a + b ≤ maxCycle) : plus a b = .ok (a + b) :=
  if_pos h

/-! ## Lists of checked steps -/

theorem mapM_eq_map {f : α → Except ε β} {g : α → β} {l : List α} (h : ∀ a ∈ l, f a = .ok (g a)) :
    l.mapM f = .ok (l.map g) := by
  induction l with
  | nil => rfl
  | cons a l ih =>
      obtain ⟨ha, hl⟩ := List.forall_mem_cons.mp h
      rw [List.mapM_cons, ha, ih hl]
      rfl

/-- Where every item has an entry, none is passed over. -/
theorem mapM_eq_filterMap {f : α → Except ε β} {g : α → Option β} {l : List α}
    (h : ∀ a ∈ l, ∃ b, f a = .ok b ∧ g a = some b) : l.mapM f = .ok (l.filterMap g) := by
  induction l with
  | nil => rfl
  | cons a l ih =>
      obtain ⟨⟨b, hf, hg⟩, hl⟩ := List.forall_mem_cons.mp h
      rw [List.mapM_cons, hf, ih hl, List.filterMap_cons_some hg]
      rfl

/-! ## Checked actions -/

end Checked

namespace Action

variable {α β ε ε' σ τ : Type}

/-- An action in which there is nothing to check. -/
def halting (m : Action ε σ α) : Action (Halt ε) σ α :=
  m.mapError .error

/-- Goes on with what a checked step gives, or stops with its slip. -/
def check (x : Except Slip α) : Action (Halt ε) σ α :=
  ofExcept (x.mapError .slip)

/-- Started at `s`, the checked action does what the action does, and no step slips. -/
def Agrees (m' : Action (Halt ε) σ α) (m : Action ε σ α) (s : σ) : Prop :=
  m' s = m.halting s

variable {m : Action ε σ α} {m' : Action (Halt ε) σ α} {s : σ}

/-- An action that agrees with one of the engine stops with errors of the engine only. -/
theorem Agrees.result (h : Agrees m' m s) : (m' s).result = (m s).result.mapError .error :=
  congrArg Outcome.result h

theorem Agrees.ne_slip (h : Agrees m' m s) (slip : Slip) : (m' s).result ≠ .error (.slip slip) := by
  rw [h.result]
  cases (m s).result <;> rintro ⟨⟩

theorem agrees_halting (m : Action ε σ α) (s : σ) : Agrees m.halting m s :=
  rfl

theorem agrees_pure (a : α) (s : σ) : Agrees (pure a) (pure a : Action ε σ α) s :=
  rfl

theorem agrees_stop (e : ε) (s : σ) : Agrees (stop (.error e)) (stop e : Action ε σ α) s :=
  rfl

theorem agrees_report (e : Event) (s : σ) : Agrees (report e) (report e : Action ε σ Unit) s :=
  rfl

theorem agrees_modify (f : σ → σ) (s : σ) : Agrees (modify f) (modify f : Action ε σ Unit) s :=
  rfl

theorem agrees_ofExcept {x' : Except (Halt ε) α} {x : Except ε α} (h : x' = x.mapError .error)
    (s : σ) : Agrees (ofExcept x') (ofExcept x) s := by
  rw [h]
  rfl

/-- What follows is done in the states that the first action leaves with an answer. -/
theorem Agrees.bind {f : α → Action ε σ β} {f' : α → Action (Halt ε) σ β} (hm : Agrees m' m s)
    (hf : m.wp (fun a t => Agrees (f' a) (f a) t) (fun _ _ => True) s) :
    Agrees (m' >>= f') (m >>= f) s := by
  show Action.bind m' f' s = (Action.bind m f).halting s
  unfold Agrees halting mapError at hm
  unfold wp at hf
  simp only [Action.bind, halting, mapError, hm]
  rcases hrun : m s with ⟨_ | a, t, events⟩
  · rfl
  · rw [hrun] at hf
    have hnext : f' a t = (f a).halting t := hf
    exact congrArg (fun o => { o with events := events ++ o.events }) hnext

theorem Agrees.andThen {f : α → Action ε σ β} {f' : α → Action (Halt ε) σ β} (hm : Agrees m' m s)
    (hf : ∀ a t, Agrees (f' a) (f a) t) : Agrees (m' >>= f') (m >>= f) s :=
  hm.bind (wp_trivial.mono (fun a t _ => hf a t) fun _ _ h => h)

theorem Agrees.map (hm : Agrees m' m s) (f : α → β) : Agrees (f <$> m') (f <$> m) s :=
  hm.andThen fun a t => agrees_pure (f a) t

theorem agrees_get {f : σ → Action ε σ β} {f' : σ → Action (Halt ε) σ β}
    (hf : Agrees (f' s) (f s) s) : Agrees (get >>= f') (get >>= f) s :=
  Agrees.bind (m := get) rfl hf

/-- A checked action may look at the state where the engine need not. -/
theorem agrees_look {f : σ → Action (Halt ε) σ α} (hf : Agrees (f s) m s) :
    Agrees (get >>= f) m s :=
  hf

theorem Agrees.ite {c : Prop} [Decidable c] {n : Action ε σ α} {n' : Action (Halt ε) σ α}
    (hm : c → Agrees m' m s) (hn : ¬ c → Agrees n' n s) :
    Agrees (if c then m' else n') (if c then m else n) s := by
  split
  next h => exact hm h
  next h => exact hn h

/-- A step that does not slip passes on what it gives. -/
theorem agrees_check {x : Except Slip β} {b : β} {f : β → Action (Halt ε) σ α} (hx : x = .ok b)
    (hf : Agrees (f b) m s) : Agrees (check x >>= f) m s := by
  subst hx
  exact hf

theorem Agrees.zoom {part : τ → σ} {update : τ → σ → τ} {t : τ} (hm : Agrees m' m (part t)) :
    Agrees (m'.zoom part update) (m.zoom part update) t := by
  unfold Agrees halting mapError Action.zoom at *
  simp only [hm]

theorem Agrees.mapError (hm : Agrees m' m s) (f : ε → ε') :
    Agrees (m'.mapError (Halt.map f)) (m.mapError f) s := by
  unfold Agrees halting Action.mapError at *
  simp only [hm]
  rcases m s with ⟨_ | a, t, events⟩ <;> rfl

/-- One item after another, in states of which `I` holds. -/
theorem agrees_forEach {f : α → Action ε σ β} {f' : α → Action (Halt ε) σ β} {I : σ → Prop}
    {items : List α} (hs : I s)
    (hf : ∀ a ∈ items, ∀ t, I t →
      Agrees (f' a) (f a) t ∧ (f a).wp (fun _ => I) (fun _ _ => True) t) :
    Agrees (forEach f' items) (forEach f items) s := by
  induction items generalizing s with
  | nil => exact agrees_pure _ _
  | cons a items ih =>
      obtain ⟨hfirst, hrest⟩ := List.forall_mem_cons.mp hf
      refine (hfirst s hs).1.bind ((hfirst s hs).2.mono (fun b t ht => ?_) fun _ _ h => h)
      exact (ih ht hrest).andThen fun bs u => agrees_pure _ _

end Action

end Retime

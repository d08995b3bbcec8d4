import Retime.Action

/-! # Reasoning about actions

`m.wp Q E s` says what the action `m` does when it is started in `s`: it answers some
`a` and leaves a state with `Q a`, or it stops with some `e` and leaves a state with
`E e`. The equations below carry such a statement through the pieces that actions
are made of.
-/

namespace Retime.Action

variable {ε ε' σ τ α β : Type}

def wp (m : Action ε σ α) (Q : α → σ → Prop) (E : ε → σ → Prop) (s : σ) : Prop :=
  match (m s).result with
  | .ok a => Q a (m s).state
  | .error e => E e (m s).state

/-! ## The pieces of actions -/

@[simp] theorem wp_pure {Q : α → σ → Prop} {E : ε → σ → Prop} {a : α} {s : σ} :
    (pure a : Action ε σ α).wp Q E s ↔ Q a s :=
  Iff.rfl

@[simp] theorem wp_bind {m : Action ε σ α} {f : α → Action ε σ β} {Q : β → σ → Prop}
    {E : ε → σ → Prop} {s : σ} :
    (m >>= f).wp Q E s ↔ m.wp (fun a t => (f a).wp Q E t) E s := by
  show (Action.bind m f).wp Q E s ↔ _
  unfold wp Action.bind
  rcases m s with ⟨_ | a, t, events⟩ <;> rfl

@[simp] theorem wp_map {m : Action ε σ α} {f : α → β} {Q : β → σ → Prop}
    {E : ε → σ → Prop} {s : σ} :
    (f <$> m).wp Q E s ↔ m.wp (fun a t => Q (f a) t) E s :=
  wp_bind

@[simp] theorem wp_get {Q : σ → σ → Prop} {E : ε → σ → Prop} {s : σ} :
    (get : Action ε σ σ).wp Q E s ↔ Q s s :=
  Iff.rfl

@[simp] theorem wp_modify {f : σ → σ} {Q : Unit → σ → Prop} {E : ε → σ → Prop} {s : σ} :
    (modify f : Action ε σ Unit).wp Q E s ↔ Q () (f s) :=
  Iff.rfl

@[simp] theorem wp_stop {e : ε} {Q : α → σ → Prop} {E : ε → σ → Prop} {s : σ} :
    (stop e : Action ε σ α).wp Q E s ↔ E e s :=
  Iff.rfl

@[simp] theorem wp_report {e : Event} {Q : Unit → σ → Prop} {E : ε → σ → Prop} {s : σ} :
    (report e : Action ε σ Unit).wp Q E s ↔ Q () s :=
  Iff.rfl

theorem wp_ofExcept {x : Except ε α} {Q : α → σ → Prop} {E : ε → σ → Prop} {s : σ} :
    (ofExcept x : Action ε σ α).wp Q E s ↔
      (∀ a, x = .ok a → Q a s) ∧ ∀ e, x = .error e → E e s := by
  cases x <;> simp [wp, ofExcept]

@[simp] theorem wp_mapError {m : Action ε σ α} {f : ε → ε'} {Q : α → σ → Prop}
    {E : ε' → σ → Prop} {s : σ} :
    (m.mapError f).wp Q E s ↔ m.wp Q (fun e t => E (f e) t) s := by
  unfold wp mapError
  rcases m s with ⟨_ | a, t, events⟩ <;> rfl

@[simp] theorem wp_zoom {part : τ → σ} {update : τ → σ → τ} {m : Action ε σ α}
    {Q : α → τ → Prop} {E : ε → τ → Prop} {t : τ} :
    (m.zoom part update).wp Q E t ↔
      m.wp (fun a s => Q a (update t s)) (fun e s => E e (update t s)) (part t) :=
  Iff.rfl

@[simp] theorem wp_ite {c : Prop} [Decidable c] {m m' : Action ε σ α} {Q : α → σ → Prop}
    {E : ε → σ → Prop} {s : σ} :
    (if c then m else m').wp Q E s ↔ (c → m.wp Q E s) ∧ (¬ c → m'.wp Q E s) := by
  split <;> simp_all

/-! ## Consequences -/

theorem wp.mono {m : Action ε σ α} {Q Q' : α → σ → Prop} {E E' : ε → σ → Prop} {s : σ}
    (h : m.wp Q E s) (hQ : ∀ a t, Q a t → Q' a t) (hE : ∀ e t, E e t → E' e t) :
    m.wp Q' E' s := by
  unfold wp at h ⊢
  split <;> simp_all

theorem wp.and {m : Action ε σ α} {Q Q' : α → σ → Prop} {E E' : ε → σ → Prop} {s : σ}
    (h : m.wp Q E s) (h' : m.wp Q' E' s) :
    m.wp (fun a t => Q a t ∧ Q' a t) (fun e t => E e t ∧ E' e t) s := by
  unfold wp at h h' ⊢
  split <;> simp_all

theorem wp.of_ok {m : Action ε σ α} {Q : α → σ → Prop} {E : ε → σ → Prop} {s : σ}
    (h : m.wp Q E s) {a : α} (ha : (m s).result = .ok a) : Q a (m s).state := by
  unfold wp at h
  rwa [ha] at h

theorem wp.of_error {m : Action ε σ α} {Q : α → σ → Prop} {E : ε → σ → Prop} {s : σ}
    (h : m.wp Q E s) {e : ε} (he : (m s).result = .error e) : E e (m s).state := by
  unfold wp at h
  rwa [he] at h

theorem wp_trivial {m : Action ε σ α} {s : σ} : m.wp (fun _ _ => True) (fun _ _ => True) s := by
  unfold wp
  split <;> trivial

/-- What holds of the state in either case. -/
theorem wp.state {m : Action ε σ α} {P : σ → Prop} {s : σ}
    (h : m.wp (fun _ => P) (fun _ => P) s) : P (m s).state := by
  unfold wp at h
  split at h <;> exact h

/-- An answer needs an answer of the first part. -/
theorem ok_of_bind {m : Action ε σ α} {f : α → Action ε σ β} {s : σ} {b : β}
    (h : ((m >>= f) s).result = .ok b) : ∃ a, (m s).result = .ok a := by
  cases hm : (m s).result with
  | ok a => exact ⟨a, rfl⟩
  | error e =>
      have herror : (m >>= f).wp (fun _ _ => False) (fun _ _ => True) s := by
        rw [wp_bind]
        unfold wp
        rw [hm]
        trivial
      exact (herror.of_ok h).elim

theorem wp_of_result {m : Action ε σ α} {s : σ} :
    m.wp (fun a t => (m s).result = .ok a ∧ (m s).state = t)
      (fun e t => (m s).result = .error e ∧ (m s).state = t) s := by
  unfold wp
  split <;> simp_all

/-! ## Acting on one item after another -/

/-- A statement about the items that were done, the answers to them and the state
holds at the end if every item extends it; where an item stops, `E` is left. -/
theorem wp_forEach {f : α → Action ε σ β} {E : ε → σ → Prop}
    (I : List α → List β → σ → Prop) {items : List α} {s : σ} (hstart : I [] [] s)
    (hstep : ∀ done a rest answers t, done ++ a :: rest = items → I done answers t →
      (f a).wp (fun b => I (done ++ [a]) (answers ++ [b])) E t) :
    (forEach f items).wp (I items) E s := by
  suffices h : ∀ rest done answers t, done ++ rest = items → I done answers t →
      (forEach f rest).wp (fun bs => I items (answers ++ bs)) E t from h items [] [] s rfl hstart
  intro rest
  induction rest with
  | nil =>
      intro done answers t hitems hI
      rw [List.append_nil] at hitems
      subst hitems
      simpa [forEach] using hI
  | cons a rest ih =>
      intro done answers t hitems hI
      unfold forEach
      simp only [wp_bind, wp_pure]
      refine (hstep done a rest answers t hitems hI).mono ?_ fun _ _ h => h
      intro b u hI'
      have hrest := ih (done ++ [a]) (answers ++ [b]) u (by simpa using hitems) hI'
      simpa using hrest

/-- Reporting one event after another stops nowhere and changes nothing. -/
@[simp] theorem wp_forEach_report {events : List Event} {Q : List Unit → σ → Prop}
    {E : ε → σ → Prop} {s : σ} :
    (forEach (report : Event → Action ε σ Unit) events).wp Q E s ↔
      Q (events.map fun _ => ()) s := by
  induction events generalizing Q with
  | nil => exact Iff.rfl
  | cons e events ih =>
      unfold forEach
      simp only [wp_bind, wp_report, wp_pure, ih, List.map_cons]

/-- The items that are acted on, each with the state in which it is met: all of them up to
the first one at which the action stops. -/
def visits (f : α → Action ε σ β) : List α → σ → List (α × σ)
  | [], _ => []
  | a :: as, s =>
    (a, s) :: match (f a s).result with
      | .ok _ => visits f as (f a s).state
      | .error _ => []

/-- A statement about the items that were met and the state, which every item extends even
if it stops, holds at the end. -/
theorem wp_forEach_visits {f : α → Action ε σ β} (I : List (α × σ) → σ → Prop)
    {items : List α} (hstep : ∀ met a t, a ∈ items → I met t →
      (f a).wp (fun _ => I (met ++ [(a, t)])) (fun _ => I (met ++ [(a, t)])) t)
    {s : σ} (hstart : I [] s) :
    (forEach f items).wp (fun _ => I (visits f items s)) (fun _ => I (visits f items s)) s := by
  suffices h : ∀ met t, I met t → (forEach f items).wp (fun _ => I (met ++ visits f items t))
      (fun _ => I (met ++ visits f items t)) t from h [] s hstart
  clear hstart
  induction items with
  | nil =>
      intro met t hI
      simpa [forEach, visits] using hI
  | cons a items ih =>
      intro met t hI
      unfold forEach
      simp only [wp_bind, wp_pure]
      have hrest := ih fun met a t ha => hstep met a t (List.mem_cons_of_mem _ ha)
      refine ((hstep met a t List.mem_cons_self hI).and wp_of_result).mono ?_ ?_
      · rintro b u ⟨hI', hresult, rfl⟩
        have hvisits : met ++ visits f (a :: items) t =
            met ++ [(a, t)] ++ visits f items (f a t).state := by
          simp [visits, hresult]
        rw [hvisits]
        exact hrest _ _ hI'
      · rintro e u ⟨hI', hresult, rfl⟩
        have hvisits : met ++ visits f (a :: items) t = met ++ [(a, t)] := by
          simp [visits, hresult]
        rw [hvisits]
        exact hI'

/-! ## Actions that are known to succeed -/

/-- The action answers `a` and leaves `t`. -/
def Returns (m : Action ε σ α) (s : σ) (a : α) (t : σ) : Prop :=
  m.wp (fun b u => b = a ∧ u = t) (fun _ _ => False) s

theorem Returns.wp {m : Action ε σ α} {s t : σ} {a : α} (h : m.Returns s a t)
    {Q : α → σ → Prop} {E : ε → σ → Prop} (hQ : Q a t) : m.wp Q E s := by
  refine wp.mono h ?_ fun _ _ hfalse => hfalse.elim
  rintro _ _ ⟨rfl, rfl⟩
  exact hQ

theorem Returns.result_eq {m : Action ε σ α} {s t : σ} {a : α} (h : m.Returns s a t) :
    (m s).result = .ok a := by
  unfold Returns Action.wp at h
  split at h
  next b hb => rw [hb, h.1]
  next => exact h.elim

theorem Returns.bind {m : Action ε σ α} {f : α → Action ε σ β} {s t u : σ} {a : α} {b : β}
    (h : m.Returns s a t) (h' : (f a).Returns t b u) : (m >>= f).Returns s b u :=
  wp_bind.mpr (h.wp h')

theorem returns_pure (a : α) (s : σ) : (pure a : Action ε σ α).Returns s a s :=
  wp_pure.mpr ⟨rfl, rfl⟩

theorem returns_forEach_nil {f : α → Action ε σ β} (s : σ) : (forEach f []).Returns s [] s :=
  returns_pure [] s

theorem Returns.forEach_cons {f : α → Action ε σ β} {a : α} {as : List α} {b : β} {bs : List β}
    {s t u : σ} (h : (f a).Returns s b t) (h' : (forEach f as).Returns t bs u) :
    (forEach f (a :: as)).Returns s (b :: bs) u :=
  h.bind (h'.bind (returns_pure (b :: bs) u))

/-! ## What actions keep -/

/-- The action keeps `P`, whether it answers or stops. -/
def Keeps (P : σ → Prop) (m : Action ε σ α) : Prop :=
  ∀ s, P s → m.wp (fun _ => P) (fun _ => P) s

section Keeps

variable {P : σ → Prop}

theorem keeps_pure (a : α) : Keeps P (pure a : Action ε σ α) :=
  fun _ h => h

theorem keeps_get : Keeps P (get : Action ε σ σ) :=
  fun _ h => h

theorem keeps_stop (e : ε) : Keeps P (stop e : Action ε σ α) :=
  fun _ h => h

theorem keeps_report (e : Event) : Keeps P (report e : Action ε σ Unit) :=
  fun _ h => h

theorem keeps_ofExcept (x : Except ε α) : Keeps P (ofExcept x : Action ε σ α) :=
  fun _ h => wp_ofExcept.mpr ⟨fun _ _ => h, fun _ _ => h⟩

theorem keeps_modify {f : σ → σ} (hf : ∀ s, P s → P (f s)) :
    Keeps P (modify f : Action ε σ Unit) :=
  hf

theorem keeps_bind {m : Action ε σ α} {f : α → Action ε σ β} (hm : Keeps P m)
    (hf : ∀ a, Keeps P (f a)) : Keeps P (m >>= f) :=
  fun s h => wp_bind.mpr ((hm s h).mono (fun a t ht => hf a t ht) fun _ _ ht => ht)

theorem keeps_map {m : Action ε σ α} {f : α → β} (hm : Keeps P m) : Keeps P (f <$> m) :=
  keeps_bind hm fun a => keeps_pure (f a)

theorem keeps_ite {c : Prop} [Decidable c] {m m' : Action ε σ α} (hm : Keeps P m)
    (hm' : Keeps P m') : Keeps P (if c then m else m') := by
  split
  · exact hm
  · exact hm'

theorem keeps_forEach {f : α → Action ε σ β} {items : List α}
    (hf : ∀ a ∈ items, Keeps P (f a)) : Keeps P (forEach f items) := by
  induction items with
  | nil => exact keeps_pure _
  | cons a items ih =>
      apply keeps_bind (hf a List.mem_cons_self)
      intro b
      refine keeps_bind (ih fun a' ha' => hf a' (List.mem_cons_of_mem a ha')) fun bs => ?_
      exact keeps_pure _

end Keeps

/-! ## What actions stop with -/

/-- Whatever the action stops with satisfies `E`. -/
def Faults (E : ε → Prop) (m : Action ε σ α) : Prop :=
  ∀ s, m.wp (fun _ _ => True) (fun e _ => E e) s

section Faults

variable {E : ε → Prop}

theorem faults_pure (a : α) : Faults E (pure a : Action ε σ α) :=
  fun _ => trivial

theorem faults_get : Faults E (get : Action ε σ σ) :=
  fun _ => trivial

theorem faults_modify (f : σ → σ) : Faults E (modify f : Action ε σ Unit) :=
  fun _ => trivial

theorem faults_report (e : Event) : Faults E (report e : Action ε σ Unit) :=
  fun _ => trivial

theorem faults_stop {e : ε} (h : E e) : Faults E (stop e : Action ε σ α) :=
  fun _ => h

theorem faults_ofExcept {x : Except ε α} (h : ∀ e, x = .error e → E e) :
    Faults E (ofExcept x : Action ε σ α) :=
  fun _ => wp_ofExcept.mpr ⟨fun _ _ => trivial, h⟩

theorem faults_ite {c : Prop} [Decidable c] {m m' : Action ε σ α} (hm : Faults E m)
    (hm' : Faults E m') : Faults E (if c then m else m') := by
  split
  · exact hm
  · exact hm'

theorem Faults.mono {E' : ε → Prop} {m : Action ε σ α} (hm : Faults E m) (h : ∀ e, E e → E' e) :
    Faults E' m :=
  fun s => (hm s).mono (fun _ _ _ => trivial) fun e _ => h e

theorem faults_bind {m : Action ε σ α} {f : α → Action ε σ β} (hm : Faults E m)
    (hf : ∀ a, Faults E (f a)) : Faults E (m >>= f) :=
  fun s => wp_bind.mpr ((hm s).mono (fun a t _ => hf a t) fun _ _ h => h)

theorem faults_map {m : Action ε σ α} {f : α → β} (hm : Faults E m) : Faults E (f <$> m) :=
  faults_bind hm fun a => faults_pure (f a)

theorem faults_zoom {part : τ → σ} {update : τ → σ → τ} {m : Action ε σ α} (hm : Faults E m) :
    Faults E (m.zoom part update) :=
  fun t => hm (part t)

theorem faults_forEach {f : α → Action ε σ β} {items : List α}
    (hf : ∀ a ∈ items, Faults E (f a)) : Faults E (forEach f items) := by
  induction items with
  | nil => exact faults_pure _
  | cons a items ih =>
      apply faults_bind (hf a List.mem_cons_self)
      intro b
      refine faults_bind (ih fun a' ha' => hf a' (List.mem_cons_of_mem a ha')) fun bs => ?_
      exact faults_pure _

end Faults

/-! ## What actions report -/

/-- Whatever the action reports, be it stopped or not, satisfies `p`. -/
structure Reports (p : Event → Prop) (m : Action ε σ α) : Prop where
  events : ∀ s, ∀ e ∈ (m s).events, p e

section Reports

variable {p : Event → Prop}

theorem reports_pure (a : α) : Reports p (pure a : Action ε σ α) :=
  ⟨fun _ _ he => absurd he List.not_mem_nil⟩

theorem reports_get : Reports p (get : Action ε σ σ) :=
  ⟨fun _ _ he => absurd he List.not_mem_nil⟩

theorem reports_modify (f : σ → σ) : Reports p (modify f : Action ε σ Unit) :=
  ⟨fun _ _ he => absurd he List.not_mem_nil⟩

theorem reports_stop (e : ε) : Reports p (stop e : Action ε σ α) :=
  ⟨fun _ _ he => absurd he List.not_mem_nil⟩

theorem reports_ofExcept (x : Except ε α) : Reports p (ofExcept x : Action ε σ α) :=
  ⟨fun _ _ he => absurd he List.not_mem_nil⟩

theorem reports_report {e : Event} (h : p e) : Reports p (report e : Action ε σ Unit) :=
  ⟨fun _ _ he => List.mem_singleton.mp he ▸ h⟩

theorem reports_zoom {part : τ → σ} {update : τ → σ → τ} {m : Action ε σ α} (hm : Reports p m) :
    Reports p (m.zoom part update) :=
  ⟨fun t => hm.events (part t)⟩

theorem reports_ite {c : Prop} [Decidable c] {m m' : Action ε σ α} (hm : Reports p m)
    (hm' : Reports p m') : Reports p (if c then m else m') := by
  split
  · exact hm
  · exact hm'

theorem reports_bind {m : Action ε σ α} {f : α → Action ε σ β} (hm : Reports p m)
    (hf : ∀ a, Reports p (f a)) : Reports p (m >>= f) := by
  constructor
  intro s e he
  change e ∈ (Action.bind m f s).events at he
  unfold Action.bind at he
  have hfirst := hm.events s
  rcases hrun : m s with ⟨_ | a, t, events⟩
  · rw [hrun] at he hfirst
    exact hfirst e he
  · rw [hrun] at he hfirst
    rcases List.mem_append.mp he with he | he
    · exact hfirst e he
    · exact (hf a).events t e he

theorem reports_map {m : Action ε σ α} {f : α → β} (hm : Reports p m) : Reports p (f <$> m) :=
  reports_bind hm fun a => reports_pure (f a)

theorem reports_forEach {f : α → Action ε σ β} {items : List α}
    (hf : ∀ a ∈ items, Reports p (f a)) : Reports p (forEach f items) := by
  induction items with
  | nil => exact reports_pure _
  | cons a items ih =>
      apply reports_bind (hf a List.mem_cons_self)
      intro b
      refine reports_bind (ih fun a' ha' => hf a' (List.mem_cons_of_mem a ha')) fun bs => ?_
      exact reports_pure _

end Reports

/-- Reporting one event after another reports them all. -/
theorem forEach_report (events : List Event) (s : σ) :
    forEach (report : Event → Action ε σ Unit) events s =
      { result := .ok (events.map fun _ => ()), state := s, events } := by
  induction events with
  | nil => rfl
  | cons e events ih =>
      have hfirst : (report e : Action ε σ Unit) s = ⟨.ok (), s, [e]⟩ := rfl
      simp [forEach, bind, Action.bind, hfirst, ih, pure, Action.pure]

/-! ## Two runs -/

/-- Started at `s` and `t`, two actions give the same result and leave states related by `P`. -/
def Coupled (P : σ → τ → Prop) (m : Action ε σ α) (m' : Action ε τ α) (s : σ) (t : τ) : Prop :=
  (m s).result = (m' t).result ∧ P (m s).state (m' t).state

/-- Two actions do the same in related states. -/
def Couples (P : σ → τ → Prop) (m : Action ε σ α) (m' : Action ε τ α) : Prop :=
  ∀ s t, P s t → Coupled P m m' s t

section Couples

variable {P : σ → τ → Prop}

theorem couples_pure (a : α) : Couples P (pure a : Action ε σ α) (pure a) :=
  fun _ _ h => ⟨rfl, h⟩

theorem couples_stop (e : ε) : Couples P (stop e : Action ε σ α) (stop e) :=
  fun _ _ h => ⟨rfl, h⟩

theorem couples_report (e : Event) : Couples P (report e : Action ε σ Unit) (report e) :=
  fun _ _ h => ⟨rfl, h⟩

theorem couples_ofExcept (x : Except ε α) : Couples P (ofExcept x) (ofExcept x) :=
  fun _ _ h => ⟨rfl, h⟩

theorem couples_modify {f : σ → σ} {f' : τ → τ} (hf : ∀ s t, P s t → P (f s) (f' t)) :
    Couples P (modify f : Action ε σ Unit) (modify f') :=
  fun s t h => ⟨rfl, hf s t h⟩

theorem Couples.coupled {m : Action ε σ α} {m' : Action ε τ α} (hm : Couples P m m') {s : σ} {t : τ}
    (h : P s t) : Coupled P m m' s t :=
  hm s t h

theorem Coupled.bind {m : Action ε σ α} {m' : Action ε τ α} {f : α → Action ε σ β}
    {f' : α → Action ε τ β} {s : σ} {t : τ} (hm : Coupled P m m' s t)
    (hf : ∀ a, Couples P (f a) (f' a)) : Coupled P (m >>= f) (m' >>= f') s t := by
  obtain ⟨hresult, hstate⟩ := hm
  show Coupled P (Action.bind m f) (Action.bind m' f') s t
  unfold Coupled Action.bind
  rcases hrun : m s with ⟨_ | a, u, events⟩ <;> rcases hrun' : m' t with ⟨_ | a', v, events'⟩ <;>
    simp only [hrun, hrun', reduceCtorEq, Except.error.injEq, Except.ok.injEq] at hresult hstate
  · subst hresult
    exact ⟨rfl, hstate⟩
  · subst hresult
    exact hf a u v hstate

theorem Couples.bind {m : Action ε σ α} {m' : Action ε τ α} {f : α → Action ε σ β}
    {f' : α → Action ε τ β} (hm : Couples P m m') (hf : ∀ a, Couples P (f a) (f' a)) :
    Couples P (m >>= f) (m' >>= f') :=
  fun s t h => (hm s t h).bind hf

/-- What follows different answers. -/
theorem coupled_bind_of_ok {α' : Type} {m : Action ε σ α} {m' : Action ε τ α'}
    {f : α → Action ε σ β} {f' : α' → Action ε τ β} {s : σ} {t : τ} {a : α} {a' : α'}
    (hm : (m s).result = .ok a) (hm' : (m' t).result = .ok a')
    (hf : Coupled P (f a) (f' a') (m s).state (m' t).state) :
    Coupled P (m >>= f) (m' >>= f') s t := by
  show Coupled P (Action.bind m f) (Action.bind m' f') s t
  unfold Coupled Action.bind
  rcases hrun : m s with ⟨_ | a, u, events⟩ <;> rcases hrun' : m' t with ⟨_ | a', v, events'⟩ <;>
    simp_all [Coupled]

theorem coupled_get {f : σ → Action ε σ β} {f' : τ → Action ε τ β} {s : σ} {t : τ}
    (hf : Coupled P (f s) (f' t) s t) : Coupled P (get >>= f) (get >>= f') s t :=
  hf

/-- What follows a look at related states. -/
theorem couples_get {f : σ → Action ε σ β} {f' : τ → Action ε τ β}
    (hf : ∀ s t, P s t → Couples P (f s) (f' t)) : Couples P (get >>= f) (get >>= f') :=
  fun s t h => coupled_get (hf s t h s t h)

theorem Couples.map {m : Action ε σ α} {m' : Action ε τ α} (hm : Couples P m m') (f : α → β) :
    Couples P (f <$> m) (f <$> m') :=
  hm.bind fun a => couples_pure (f a)

theorem Couples.ite {c : Prop} [Decidable c] {m n : Action ε σ α} {m' n' : Action ε τ α}
    (hm : Couples P m m') (hn : Couples P n n') :
    Couples P (if c then m else n) (if c then m' else n') := by
  split
  · exact hm
  · exact hn

theorem couples_forEach {f : α → Action ε σ β} {f' : α → Action ε τ β}
    (hf : ∀ a, Couples P (f a) (f' a)) (items : List α) :
    Couples P (forEach f items) (forEach f' items) := by
  induction items with
  | nil => exact couples_pure _
  | cons a items ih => exact (hf a).bind fun b => ih.bind fun bs => couples_pure _

end Couples

end Retime.Action

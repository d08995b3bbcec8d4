import Retime.Proofs.Dataflow.Evolution
import Retime.Proofs.Operator.Script

/-! # The requests of a script

Every call makes its requests for signals one after another, in states that depend on the
earlier ones. They are listed here as the calls make them, and whatever a call does to the
dataflow of its operator is accounted for by them and by declarations.
-/

namespace Retime.Operator

open Retime.Action Dataflow

/-! ## Requests -/

/-- Reading a signal that exists and is no output. -/
def readRequests (name : String) (cycle : Nat) (op : Operator) : List Request :=
  match op.flow.netlist.find name with
  | .ok s => if s.role = .output then [] else [⟨op.flow, s, cycle⟩]
  | .error _ => []

def fieldRequests (name : String) (field : FloatField) (op : Operator) : List Request :=
  match op.flow.netlist.find name with
  | .ok s =>
    match s.width.fieldRange? field with
    | some _ => readRequests name op.timeline.cycle op
    | none => []
  | .error _ => []

/-- An input that is connected to a signal of its width. -/
def inputRequests (wiring : Wiring) (cycle : Nat) (formal : Port) (op : Operator) :
    List Request :=
  match wiring.inputs.lookup formal.name with
  | some (.signal name) =>
    match op.flow.netlist.find name with
    | .ok s => if s.width.bits ≠ formal.width.bits then [] else readRequests name cycle op
    | .error _ => []
  | _ => []

/-- The inputs up to the first one that cannot be connected, if the copy can be placed. -/
def instantiateRequests (lib : Library) (sub : Handle) (name : String) (wiring : Wiring)
    (op : Operator) : List Request :=
  if op.instances.any (·.name = name) then []
  else
    match op.subInterface lib sub with
    | .error _ => []
    | .ok itf =>
      match wiring.check itf, laterCycle op.timeline.cycle itf.depth with
      | .ok _, .ok _ =>
        (visits (connectInput itf wiring op.timeline.cycle) itf.inputs op).flatMap
          fun (formal, op') => inputRequests wiring op.timeline.cycle formal op'
      | _, _ => []

/-- The declaration of the signal that holds the value of `s`. -/
def held (s : Signal) : Declaration :=
  { s.toDeclaration with name := stageName s.name 0, role := .internal }

/-- The value of `s` is asked for under the name that was declared to hold it. -/
def carryRequests (s : Signal) (cycle : Nat) (d : Dataflow) : List Request :=
  if d.netlist.contains (held s).name then []
  else
    [⟨({ d with netlist := d.netlist.add (held s) } : Dataflow).setStem d.netlist.size s.name,
      ⟨held s, d.netlist.size⟩, cycle⟩]

/-- An output that was declared before the cycle in which it is exposed. -/
def exposeRequests (depth : Nat) (out : OutputPort) (op : Operator) : List Request :=
  match op.flow.netlist.signal? out.signal with
  | some s => if s.cycle = depth then [] else carryRequests s depth op.flow
  | none => []

def finishRequests (op : Operator) : List Request :=
  (visits (expose op.exposure) op.outputs.toList op).flatMap
    fun (out, op') => exposeRequests op.exposure out op'

/-- The requests that are made when a call is executed. -/
def executeRequests (lib : Library) (c : Call) (op : Operator) : List Request :=
  match c with
  | .consume name => readRequests name op.timeline.cycle op
  | .consumeField name field => fieldRequests name field op
  | .instantiate sub name wiring => instantiateRequests lib sub name wiring op
  | .finish => finishRequests op
  | _ => []

/-- All requests that are made in a script; a closed operator makes none. -/
def requests : Operator → Script → List Request
  | _, [] => []
  | op, entry :: script =>
    (if op.isFinished then [] else executeRequests entry.1 entry.2 op)
      ++ (op.step entry).requests script

/-! ## Calls do not change a dataflow otherwise -/

/-- The lines are sound and the outputs are defined by expressions. -/
structure Sound (op : Operator) : Prop where
  flow : op.flow.Sound
  outputs : ∀ out ∈ op.outputs, ∃ s text,
    op.flow.netlist.signal? out.signal = some s ∧ s.driver = .expr text

/-- Requests lead from one operator to the other, which has the same outputs. -/
structure Advances (op : Operator) (qs : List Request) (op' : Operator) : Prop where
  flow : op.flow.Evolves qs op'.flow
  outputs : op'.outputs = op.outputs

variable {op op' op'' : Operator} {qs qs' : List Request}

theorem Advances.sound (h : op.Advances qs op') (hop : op.Sound) : op'.Sound where
  flow := h.flow.sound hop.flow
  outputs out hout := by
    rw [h.outputs] at hout
    obtain ⟨s, text, hs, hdriver⟩ := hop.outputs out hout
    exact ⟨s, text, (h.flow.extends hop.flow).netlist _ _ hs, hdriver⟩

theorem Advances.refl (op : Operator) : op.Advances [] op :=
  ⟨.refl, rfl⟩

theorem Advances.trans (h : op.Advances qs op') (h' : op'.Advances qs' op'') :
    op.Advances (qs ++ qs') op'' :=
  ⟨h.flow.trans h'.flow, h'.outputs.trans h.outputs⟩

/-- An action makes the requests that are listed for it, whether it answers or stops. -/
def Asks {α : Type} (asked : Operator → List Request) (m : Action Fault Operator α) : Prop :=
  ∀ op, op.Sound → m.wp (fun _ => op.Advances (asked op)) (fun _ => op.Advances (asked op)) op

section Asks

variable {α β : Type} {asked : Operator → List Request}

/-- What follows without requests. -/
theorem Advances.andThen {m : Action Fault Operator α} (h : op.Advances qs op')
    (hop : op.Sound) (hm : Asks (fun _ => []) m) :
    m.wp (fun _ => op.Advances qs) (fun _ => op.Advances qs) op' := by
  refine (hm op' (h.sound hop)).mono (fun _ op'' hop'' => ?_) fun _ op'' hop'' => ?_
  · simpa using h.trans hop''
  · simpa using h.trans hop''

theorem Asks.bind {m : Action Fault Operator α} {f : α → Action Fault Operator β}
    (hm : Asks asked m) (hf : ∀ a, Asks (fun _ => []) (f a)) : Asks asked (m >>= f) :=
  fun op hop => wp_bind.mpr <|
    (hm op hop).mono (fun a _ hop' => hop'.andThen hop (hf a)) fun _ _ hop' => hop'

theorem asks_pure (a : α) : Asks (fun _ => []) (pure a) :=
  fun op _ => .refl op

theorem asks_report (e : Event) : Asks (fun _ => []) (report e) :=
  fun op _ => .refl op

theorem asks_get : Asks (fun _ => []) get :=
  fun op _ => .refl op

theorem asks_modify {f : Operator → Operator} (hflow : ∀ op, (f op).flow = op.flow)
    (houtputs : ∀ op, (f op).outputs = op.outputs) : Asks (fun _ => []) (modify f) :=
  fun op _ => wp_modify.mpr ⟨(hflow op).symm ▸ .refl, houtputs op⟩

theorem asks_onTimeline (f : Timeline → Except Fault Timeline) :
    Asks (fun _ => []) (onTimeline f) :=
  fun op _ => wp_onTimeline.mpr ⟨fun _ _ => ⟨.refl, rfl⟩, fun _ _ => .refl op⟩

theorem asks_find (name : String) : Asks (fun _ => []) (find name) :=
  fun op _ => wp_find.mpr ⟨fun _ _ => .refl op, fun _ _ => .refl op⟩

theorem asks_ofExcept (x : Except Fault α) : Asks (fun _ => []) (ofExcept x) :=
  fun op _ => wp_ofExcept.mpr ⟨fun _ _ => .refl op, fun _ _ => .refl op⟩

theorem asks_forEach {f : α → Action Fault Operator β} {items : List α}
    (hf : ∀ a ∈ items, Asks (fun _ => []) (f a)) : Asks (fun _ => []) (forEach f items) := by
  induction items with
  | nil => exact asks_pure _
  | cons a items ih =>
      apply (hf a List.mem_cons_self).bind
      intro b
      exact (ih fun a' ha' => hf a' (List.mem_cons_of_mem a ha')).bind fun bs => asks_pure _

/-- A signal that is no stage is declared without a request. -/
theorem asks_declare {decl : Declaration} (hdriver : ∀ r depth, decl.driver ≠ .stage r depth) :
    Asks (fun _ => []) (onFlow (Dataflow.declare decl)) :=
  fun op _ => wp_onFlow.mpr <| wp_declare.mpr
    ⟨fun _ => .refl op, fun hfree => ⟨Evolves.refl.declare decl hfree hdriver, rfl⟩⟩

theorem asks_declareHere (name : String) (role : Role) (clocking : Clocking) (width : Width)
    {driver : Driver} (hdriver : ∀ r depth, driver ≠ .stage r depth) :
    Asks (fun _ => []) (declareHere name role clocking width driver) :=
  asks_get.bind fun _ => asks_declare hdriver

/-- The requests for the items that are met, each in its state. -/
theorem wp_forEach_asks {f : α → Action Fault Operator β} (asked : α → Operator → List Request)
    {items : List α} (hop : op.Sound) (hf : ∀ a ∈ items, ∀ op', op'.Sound →
      op'.outputs = op.outputs → (f a).wp (fun _ => op'.Advances (asked a op'))
        (fun _ => op'.Advances (asked a op')) op') :
    (forEach f items).wp
      (fun _ => op.Advances ((visits f items op).flatMap fun (a, op') => asked a op'))
      (fun _ => op.Advances ((visits f items op).flatMap fun (a, op') => asked a op')) op := by
  refine wp_forEach_visits
    (fun met op' => op.Advances (met.flatMap fun (a, op') => asked a op') op') ?_ (.refl op)
  intro met a op' ha hop'
  refine (hf a ha op' (hop'.sound hop) hop'.outputs).mono ?_ ?_
  · intro _ op'' hop''
    simpa using hop'.trans hop''
  · intro _ op'' hop''
    simpa using hop'.trans hop''

end Asks

/-! ## The requests of each call -/

theorem asks_read (name : String) (cycle : Nat) :
    Asks (readRequests name cycle) (read name cycle) := by
  intro op hop
  simp only [read, wp_bind, wp_find]
  refine ⟨fun s hs => ?_, fun e he => ?_⟩
  · rw [wp_ite]
    refine ⟨fun hrole => ?_, fun hrole => ?_⟩
    · simpa [readRequests, hs, hrole] using Advances.refl op
    · have hasked : readRequests name cycle op = [⟨op.flow, s, cycle⟩] := by
        simp [readRequests, hs, hrole]
      rw [hasked, wp_bind, wp_onFlow]
      have hin := (hop.flow.lawful.find_ok.mp hs).1
      have hmade := Evolves.refl.request (d := op.flow) s cycle hin hrole
      refine wp_of_result.mono ?_ ?_
      · rintro id d ⟨-, rfl⟩
        exact ⟨hmade, rfl⟩
      · rintro e d ⟨-, rfl⟩
        exact ⟨hmade, rfl⟩
  · simpa [readRequests, he] using Advances.refl op

theorem asks_consume (name : String) :
    Asks (fun op => readRequests name op.timeline.cycle op) (consume name) := by
  intro op hop
  unfold consume
  rw [wp_bind, wp_get]
  refine ((asks_read name op.timeline.cycle).bind fun id => ?_) op hop
  exact asks_get.bind fun _ => asks_pure _

theorem asks_consumeField (name : String) (field : FloatField) :
    Asks (fieldRequests name field) (consumeField name field) := by
  intro op hop
  simp only [consumeField, wp_bind, wp_find]
  refine ⟨fun s hs => ?_, fun e he => ?_⟩
  · cases hrange : s.width.fieldRange? field with
    | none => simpa [fieldRequests, hs, hrange] using Advances.refl op
    | some range =>
        have hasked : fieldRequests name field op = readRequests name op.timeline.cycle op := by
          simp [fieldRequests, hs, hrange]
        rw [hasked]
        exact ((asks_consume name).bind fun _ => asks_pure _) op hop
  · simpa [fieldRequests, he] using Advances.refl op

theorem asks_connectInput (itf : Interface) (wiring : Wiring) (cycle : Nat) (formal : Port) :
    Asks (inputRequests wiring cycle formal) (connectInput itf wiring cycle formal) := by
  intro op hop
  unfold connectInput
  cases hbound : wiring.inputs.lookup formal.name with
  | none => simpa [inputRequests, hbound] using Advances.refl op
  | some source =>
      cases source with
      | constant text => simpa [inputRequests, hbound] using Advances.refl op
      | signal name =>
          simp only [wp_bind, wp_find]
          refine ⟨fun s hs => ?_, fun e he => ?_⟩
          · rw [wp_ite]
            refine ⟨fun hwidth => ?_, fun hwidth => ?_⟩
            · simpa [inputRequests, hbound, hs, hwidth] using Advances.refl op
            · have hasked : inputRequests wiring cycle formal op = readRequests name cycle op := by
                simp only [inputRequests, hbound, hs, if_neg hwidth]
              rw [hasked]
              exact ((asks_read name cycle).bind fun _ => asks_pure _) op hop
          · simpa [inputRequests, hbound, he] using Advances.refl op

theorem asks_connectOutput (wiring : Wiring) (id cycle : Nat) (formal : Port) :
    Asks (fun _ => []) (connectOutput wiring id cycle formal) := by
  unfold connectOutput
  split
  · exact asks_pure _
  · refine (asks_declare fun r depth => by simp).bind fun signal => ?_
    exact (asks_onTimeline _).bind fun _ => asks_pure _

/-- Once a copy can be placed, its inputs make the requests. -/
theorem Admits.requests_eq {lib : Library} {sub : Handle} {name : String} {wiring : Wiring}
    {itf : Interface} {cycle : Nat} (h : op.Admits lib sub name wiring itf cycle) :
    instantiateRequests lib sub name wiring op =
      (visits (connectInput itf wiring op.timeline.cycle) itf.inputs op).flatMap
        fun (formal, op') => inputRequests wiring op.timeline.cycle formal op' := by
  simp only [instantiateRequests, h.free, h.interface, h.checked, h.later]
  rfl

/-- A copy that is turned down makes none. -/
theorem instantiateRequests_of_turned {lib : Library} {sub : Handle} {name : String}
    {wiring : Wiring} {e : Fault} (h : op.admission lib sub name wiring = .error e) :
    instantiateRequests lib sub name wiring op = [] := by
  unfold instantiateRequests
  split
  · rfl
  next hfree =>
  split
  · rfl
  next itf hitf =>
  split
  next hcheck hlater =>
    have hadmits : op.Admits lib sub name wiring itf _ := ⟨by simpa using hfree, hitf, hcheck, hlater⟩
    rw [hadmits.admission_eq] at h
    cases h
  · rfl

theorem asks_instantiate (lib : Library) (sub : Handle) (name : String) (wiring : Wiring) :
    Asks (instantiateRequests lib sub name wiring) (instantiate lib sub name wiring) := by
  intro op hop
  apply wp_instantiate_of
  · intro itf cycle hadmits
    rw [hadmits.requests_eq]
    have hrest (inputs : List (String × Actual)) : Asks (fun _ => []) (do
        let outputs ← forEach (connectOutput wiring op.instances.size cycle) itf.outputs
        modify fun op' => { op' with
          instances := op'.instances.push ⟨op.instances.size, name, sub, itf, op.timeline.cycle,
            cycle, inputs, outputs⟩ }) :=
      (asks_forEach fun formal _ => asks_connectOutput wiring _ _ formal).bind fun outputs =>
        asks_modify (fun _ => rfl) fun _ => rfl
    exact (wp_forEach_asks (inputRequests wiring op.timeline.cycle) hop
      fun formal _ op' hop' _ => asks_connectInput itf wiring _ formal op' hop').mono
      (fun inputs op' hop' => wp_bind.mp (hop'.andThen hop (hrest inputs))) fun _ _ hop' => hop'
  · intro e he
    rw [instantiateRequests_of_turned he]
    exact Advances.refl op

theorem evolves_carry {d : Dataflow} (h : d.Sound) {s : Signal}
    (hdriver : ∀ r depth, s.driver ≠ .stage r depth) (cycle : Nat) :
    (carry s cycle).wp (fun _ d' => d.Evolves (carryRequests s cycle d) d')
      (fun _ d' => d.Evolves (carryRequests s cycle d) d') d := by
  unfold carry
  simp only [wp_bind, wp_declare, wp_modify]
  refine ⟨fun htaken => ?_, fun hfree => ?_⟩
  · simpa [carryRequests, held, htaken] using Evolves.refl
  · have hempty : d.stages d.netlist.size = #[] :=
      h.stages_of_none (Netlist.signal?_eq_none (Nat.le_refl _))
    have hheld := (Evolves.refl.declare (held s) hfree hdriver).stem _ s.name hempty
    have hin := Netlist.signal?_add_size (n := d.netlist) (held s)
    have hmade := hheld.request ⟨held s, d.netlist.size⟩ cycle hin (by simp [held])
    have hasked : carryRequests s cycle d = [⟨_, _, cycle⟩] := if_neg (by simp [held, hfree])
    rw [hasked]
    refine wp_of_result.mono ?_ ?_
    · rintro last d' ⟨-, rfl⟩
      exact hmade
    · rintro e d' ⟨-, rfl⟩
      exact hmade

theorem wp_expose_asks (hop : op.Sound) {out : OutputPort} (hout : out ∈ op.outputs)
    (depth : Nat) : (expose depth out).wp (fun _ => op.Advances (exposeRequests depth out op))
      (fun _ => op.Advances (exposeRequests depth out op)) op := by
  obtain ⟨s, text, hs, hdriver⟩ := hop.outputs out hout
  unfold expose
  rw [wp_bind, wp_get]
  simp only [hs, wp_ite]
  refine ⟨fun hcycle => ?_, fun hcycle => ?_⟩
  · simpa [exposeRequests, hs, hcycle] using Advances.refl op
  · have hasked : exposeRequests depth out op = carryRequests s depth op.flow := by
      simp [exposeRequests, hs, hcycle]
    rw [hasked, wp_bind, wp_onFlow]
    refine (evolves_carry hop.flow (by simp [hdriver]) depth).mono ?_ ?_
    · exact fun _ _ hd => ⟨hd, rfl⟩
    · exact fun _ _ hd => ⟨hd, rfl⟩

theorem asks_finish : Asks finishRequests finish := by
  intro op hop
  unfold finish
  rw [wp_bind, wp_get, wp_bind, wp_get, wp_bind]
  refine (wp_forEach_asks (exposeRequests op.exposure) hop
    fun out hout op' hop' hsame => wp_expose_asks hop' ?_ _).mono
    (fun outputs op' hop' => hop'.andThen hop ?_) fun _ _ hop' => hop'
  · rw [hsame]
    exact Array.mem_toList_iff.mp hout
  · refine asks_get.bind fun op => (asks_ofExcept _).bind fun schedule => ?_
    refine (asks_forEach fun e _ => asks_report e).bind fun _ => (asks_report _).bind fun _ => ?_
    exact asks_modify (fun _ => rfl) fun _ => rfl

/-! ## Scripts -/

theorem asks_input (name : String) (width : Width) : Asks (fun _ => []) (addInput name width) := by
  refine (asks_declareHere _ _ _ _ fun r depth => by simp).bind fun id => ?_
  exact asks_modify (fun _ => rfl) fun _ => rfl

theorem asks_accrue (delay : Float) : Asks (fun _ => []) (accrue delay) := by
  refine asks_get.bind fun op => (asks_ofExcept _).bind fun r => ?_
  obtain ⟨accrual, t⟩ := r
  cases accrual with
  | fitted => exact asks_modify (fun _ => rfl) fun _ => rfl
  | cut => exact (asks_report _).bind fun _ => asks_modify (fun _ => rfl) fun _ => rfl

/-- A new output is defined by its expression. -/
theorem wp_addOutput (hop : op.Sound) (name : String) (width : Width) (expr : String) :
    (addOutput name width expr).wp (fun _ op' => op'.Sound ∧ op.flow.Evolves [] op'.flow)
      (fun _ op' => op'.Sound ∧ op.flow.Evolves [] op'.flow) op := by
  unfold addOutput
  rw [wp_bind, wp_declareHere, wp_declare]
  refine ⟨fun _ => ⟨hop, .refl⟩, fun hfree => ?_⟩
  rw [wp_modify]
  have hev := Evolves.refl.declare (d := op.flow) _ hfree (by simp)
  refine ⟨⟨hev.sound hop.flow, fun out hout => ?_⟩, hev⟩
  rcases Array.mem_push.mp hout with hout | rfl
  · obtain ⟨s, text, hs, hdriver⟩ := hop.outputs out hout
    exact ⟨s, text, Netlist.extends_add _ _ _ hs, hdriver⟩
  · exact ⟨_, expr, Netlist.signal?_add_size _, rfl⟩

/-- What a call does to the dataflow is accounted for by its requests and declarations. -/
theorem wp_execute_asks (hop : op.Sound) (lib : Library) (c : Call) :
    (execute lib c).wp
      (fun _ op' => op'.Sound ∧ op.flow.Evolves (executeRequests lib c op) op'.flow)
      (fun _ op' => op'.Sound ∧ op.flow.Evolves (executeRequests lib c op) op'.flow) op := by
  have hasks : ∀ {α : Type} {asked : Operator → List Request} {m : Action Fault Operator α},
      Asks asked m → m.wp (fun _ op' => op'.Sound ∧ op.flow.Evolves (asked op) op'.flow)
        (fun _ op' => op'.Sound ∧ op.flow.Evolves (asked op) op'.flow) op :=
    fun hm => (hm op hop).mono (fun _ _ h => ⟨h.sound hop, h.flow⟩) fun _ _ h =>
      ⟨h.sound hop, h.flow⟩
  cases c with
  | input name width => exact hasks ((asks_input name width).bind fun _ => asks_pure _)
  | declare name width clocking expr =>
      exact hasks ((asks_declareHere _ _ _ _ fun r depth => by simp).bind fun _ => asks_pure _)
  | output name width expr =>
      exact wp_bind.mpr ((wp_addOutput hop name width expr).mono (fun _ _ h => h) fun _ _ h => h)
  | consume name => exact hasks ((asks_consume name).bind fun _ => asks_pure _)
  | consumeField name field =>
      exact hasks ((asks_consumeField name field).bind fun _ => asks_pure _)
  | setCycle cycle => exact hasks ((asks_onTimeline _).bind fun _ => asks_pure _)
  | advance => exact hasks ((asks_onTimeline _).bind fun _ => asks_pure _)
  | accrue delay => exact hasks ((asks_accrue delay).bind fun _ => asks_pure _)
  | setCriticalPath delay => exact hasks ((asks_onTimeline _).bind fun _ => asks_pure _)
  | jump name =>
      exact hasks ((asks_find name).bind fun s => (asks_onTimeline _).bind fun _ => asks_pure _)
  | join name =>
      exact hasks ((asks_find name).bind fun s => (asks_onTimeline _).bind fun _ => asks_pure _)
  | instantiate sub name wiring =>
      exact hasks ((asks_instantiate lib sub name wiring).bind fun _ => asks_pure _)
  | finish => exact hasks (asks_finish.bind fun _ => asks_pure _)

theorem sound_blank (handle : Handle) (name : String) (period : Float) (pipelined : Bool) :
    (blank handle name period pipelined).Sound where
  flow := sound_empty
  outputs out hout := by simp [blank] at hout

theorem evolves_step (hop : op.Sound) (entry : Library × Call) :
    (op.step entry).Sound ∧ op.flow.Evolves
      (if op.isFinished then [] else executeRequests entry.1 entry.2 op) (op.step entry).flow := by
  unfold step
  cases hopen : op.isFinished with
  | true =>
      rw [(perform_of_closed hopen).2]
      exact ⟨hop, .refl⟩
  | false =>
      rw [(perform_of_open hopen).2]
      exact (wp_execute_asks hop entry.1 entry.2).state

/-- The dataflow after a script is accounted for by all its requests. -/
theorem evolves_after (hop : op.Sound) (script : Script) :
    op.flow.Evolves (op.requests script) (op.after script).flow := by
  induction script generalizing op with
  | nil => exact .refl
  | cons entry script ih =>
      have hstep := evolves_step hop entry
      exact hstep.2.trans (ih hstep.1)

end Retime.Operator

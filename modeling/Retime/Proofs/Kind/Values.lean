import Retime.Proofs.Library.Triples
import Retime.Proofs.Operator.Consumption
import Retime.Proofs.Operator.Settling

/-! # Designs and the values of signals

While a design runs, statements are collected on the signals of its operator and on the nets
that the operator settles to in every environment. Such statements stay true whatever is called
next: declarations and requests add signals and change none.
-/

namespace Retime

open Retime.Action Retime.Operator Retime.Dataflow Retime.Verilog

namespace Dataflow

/-- The signal `name` has that width, and its text reads as `e`. -/
def Declares (d : Dataflow) (name : String) (width : Nat) (e : Expr) : Prop :=
  ∃ s text, d.netlist.find name = .ok s ∧ s.width.bits = width ∧ s.driver = .expr text ∧
    Expr.read text = some e

/-- Both signals are one signal or stages of one signal. -/
def StandsFor (d : Dataflow) (name root : String) : Prop :=
  ∃ t s, d.netlist.find name = .ok t ∧ d.netlist.find root = .ok s ∧
    d.netlist.root t = d.netlist.root s

/-- The signal `name` has that width. -/
def HasWidth (d : Dataflow) (name : String) (w : Width) : Prop :=
  ∃ s, d.netlist.find name = .ok s ∧ s.width = w

variable {d d' : Dataflow} {name root : String} {width : Nat} {w : Width} {e : Expr}

theorem Declares.mono (h : d.Declares name width e) (hd : d.Sound) (hd' : d'.Sound)
    (hext : d.Extends d') : d'.Declares name width e := by
  obtain ⟨s, text, hs, hrest⟩ := h
  exact ⟨s, text, hext.find hd hd' hs, hrest⟩

theorem HasWidth.mono (h : d.HasWidth name w) (hd : d.Sound) (hd' : d'.Sound)
    (hext : d.Extends d') : d'.HasWidth name w := by
  obtain ⟨s, hs, hwidth⟩ := h
  exact ⟨s, hext.find hd hd' hs, hwidth⟩

theorem StandsFor.mono (h : d.StandsFor name root) (hd : d.Sound) (hd' : d'.Sound)
    (hext : d.Extends d') : d'.StandsFor name root := by
  obtain ⟨t, s, ht, hs, hroot⟩ := h
  refine ⟨t, s, hext.find hd hd' ht, hext.find hd hd' hs, ?_⟩
  rw [hext.root_eq hd (hd.lawful.find_ok.mp ht).1, hext.root_eq hd (hd.lawful.find_ok.mp hs).1,
    hroot]

end Dataflow

/-! ## What is known -/

/-- A statement on signals and on the nets of every environment. -/
abbrev Facts : Type :=
  Dataflow → (Environment → List Net) → Prop

/-- A statement that stays true. -/
def Facts.Stable (F : Facts) : Prop :=
  ∀ ⦃d d' : Dataflow⦄ ⦃nets nets' : Environment → List Net⦄, d.Sound → d'.Sound → d.Extends d' →
    (∀ env, nets env <+: nets' env) → F d nets → F d' nets'

/-- The operator settles in every environment, to nets of which the statement is true. -/
def Operator.Knows (F : Facts) (op : Operator) : Prop :=
  ∃ nets : Environment → List Net, (∀ env, Settled env op (nets env)) ∧ F op.flow nets

/-- The net of that name has that width, and a value that depends on the environment. -/
def Valued (nets : Environment → List Net) (name : String) (width : Nat)
    (v : Environment → Nat) : Prop :=
  ∀ env, Holds (nets env) name width (v env)

/-- The word at an input port of that width. -/
def inputWord (name : String) (width : Nat) (env : Environment) : Nat :=
  env.word name % 2 ^ width

/-- The identifier `a` can be read, stands for the signal `name` and has its value. -/
structure Identifies (name : String) (width : Nat) (v : Environment → Nat) (a : String)
    (d : Dataflow) (nets : Environment → List Net) : Prop where
  valued : Valued nets a width v
  stands : d.StandsFor a name
  named : isName a.toList = true

/-- In every environment the expression has that width by itself, and that value when nothing of
it is cut off. -/
def Evaluates (nets : Environment → List Net) (e : Expr) (own : Nat) (v : Environment → Nat) :
    Prop :=
  ∀ env, e.width? (nets env) = some own ∧ e.value? (nets env) none = some (v env)

/-- In every environment the expression has that width by itself, and that value in a context of
that size. Parts of concatenations have such contexts. -/
def EvaluatesAlone (nets : Environment → List Net) (e : Expr) (own : Nat)
    (v : Environment → Nat) : Prop :=
  ∀ env, e.width? (nets env) = some own ∧ e.value? (nets env) (some own) = some (v env)

/-- The parts of a concatenation have that width and value together. -/
def EvaluatesParts (nets : Environment → List Net) (parts : List Expr) (own : Nat)
    (v : Environment → Nat) : Prop :=
  ∀ env, Expr.widths? (nets env) parts = some own ∧ Expr.joined? (nets env) parts = some (v env)

/-! ## Expressions -/

section Expressions

variable {nets : Environment → List Net} {a b : Expr} {name : String} {own own' width : Nat}
  {va vb v : Environment → Nat}

/-- A value that the net can hold is held. -/
theorem Valued.of_lt (h : Valued nets name width fun env => v env % 2 ^ width)
    (hlt : ∀ env, v env < 2 ^ width) : Valued nets name width v := by
  intro env
  rw [← Nat.mod_eq_of_lt (hlt env)]
  exact h env

theorem Valued.ident (h : Valued nets name width v) : Evaluates nets (.ident name) width v := by
  intro env
  simp [Expr.width?, Expr.value?, show net? (nets env) name = _ from h env, cut]

theorem Valued.slice (h : Valued nets name width v) {high low : Nat} (hle : low ≤ high)
    (hlt : high < width) : Evaluates nets (.slice name high low) (high - low + 1)
      fun env => v env / 2 ^ low % 2 ^ (high - low + 1) := by
  intro env
  simp [Expr.width?, Expr.value?, (h env).bits? hle hlt, cut]

theorem Valued.bit (h : Valued nets name width v) {position : Nat} (hlt : position < width) :
    Evaluates nets (.bit name position) 1 fun env => v env / 2 ^ position % 2 := by
  intro env
  simp [Expr.width?, Expr.value?, (h env).bits? (Nat.le_refl position) hlt, cut]

theorem evaluates_zero (nets : Environment → List Net) (width : Nat) :
    Evaluates nets (.zero width) width fun _ => 0 :=
  fun _ => ⟨rfl, rfl⟩

theorem Evaluates.add (ha : Evaluates nets a own va) (hb : Evaluates nets b own' vb) :
    Evaluates nets (.add a b) (max own own') fun env => va env + vb env := by
  intro env
  simp [Expr.width?, Expr.value?, ha env, hb env, cut]

theorem Evaluates.mul (ha : Evaluates nets a own va) (hb : Evaluates nets b own' vb) :
    Evaluates nets (.mul a b) (max own own') fun env => va env * vb env := by
  intro env
  simp [Expr.width?, Expr.value?, ha env, hb env, cut]

theorem Evaluates.shiftLeft (ha : Evaluates nets a own va) (places : Nat) :
    Evaluates nets (.shiftLeft a places) own fun env => va env * 2 ^ places := by
  intro env
  simp [Expr.width?, Expr.value?, ha env, cut]

theorem evaluatesParts_nil (nets : Environment → List Net) :
    EvaluatesParts nets [] 0 fun _ => 0 :=
  fun _ => ⟨rfl, rfl⟩

/-- A value that fits the own width is not cut off there. -/
theorem Evaluates.alone (ha : Evaluates nets a own va) (hlt : ∀ env, va env < 2 ^ own) :
    EvaluatesAlone nets a own va := by
  intro env
  obtain ⟨hwidth, hvalue⟩ := ha env
  exact ⟨hwidth, by rw [Expr.value?_some hvalue, Nat.mod_eq_of_lt (hlt env)]⟩

theorem EvaluatesAlone.not (ha : EvaluatesAlone nets a own va) :
    EvaluatesAlone nets (.not a) own fun env => 2 ^ own - 1 - va env := by
  intro env
  obtain ⟨hwidth, hvalue⟩ := ha env
  exact ⟨(Expr.width?_not a).trans hwidth, by simp [Expr.value?, hvalue]⟩

theorem EvaluatesAlone.part {parts : List Expr} (ha : EvaluatesAlone nets a own va)
    (hparts : EvaluatesParts nets parts own' vb) :
    EvaluatesParts nets (a :: parts) (own + own') fun env => va env * 2 ^ own' + vb env := by
  intro env
  obtain ⟨hwidth, hvalue⟩ := ha env
  obtain ⟨hrest, hjoined⟩ := hparts env
  exact ⟨Expr.widths?_cons hwidth hrest, Expr.joined?_cons hwidth hvalue hrest hjoined⟩

theorem Evaluates.part {parts : List Expr} (ha : Evaluates nets a own va)
    (hlt : ∀ env, va env < 2 ^ own) (hparts : EvaluatesParts nets parts own' vb) :
    EvaluatesParts nets (a :: parts) (own + own') fun env => va env * 2 ^ own' + vb env :=
  (ha.alone hlt).part hparts

theorem EvaluatesParts.concat {parts : List Expr} (h : EvaluatesParts nets parts own v) :
    Evaluates nets (.concat parts) own v := by
  intro env
  simp [Expr.width?, Expr.value?, h env, cut]

end Expressions

/-! ## Statements that stay true -/

variable {F F' : Facts}

theorem Facts.Stable.and (hF : F.Stable) (hF' : F'.Stable) :
    Facts.Stable fun d nets => F d nets ∧ F' d nets :=
  fun _ _ _ _ hd hd' hext hnets h => ⟨hF hd hd' hext hnets h.1, hF' hd hd' hext hnets h.2⟩

theorem stable_true : Facts.Stable fun _ _ => True :=
  fun _ _ _ _ _ _ _ _ h => h

theorem stable_valued (name : String) (width : Nat) (v : Environment → Nat) :
    Facts.Stable fun _ nets => Valued nets name width v :=
  fun _ _ _ _ _ _ _ hnets h env => (h env).mono (hnets env)

theorem stable_identifies (name : String) (width : Nat) (v : Environment → Nat) (a : String) :
    Facts.Stable (Identifies name width v a) := by
  intro d d' nets nets' hd hd' hext hnets h
  constructor
  · exact stable_valued a width v hd hd' hext hnets h.valued
  · exact h.stands.mono hd hd' hext
  · exact h.named

theorem stable_hasWidth (name : String) (w : Width) :
    Facts.Stable fun d _ => d.HasWidth name w :=
  fun _ _ _ _ hd hd' hext _ h => h.mono hd hd' hext

theorem stable_forall₂ {α β : Type} {R : α → β → Facts} (hR : ∀ a b, (R a b).Stable)
    (as : List α) (bs : List β) :
    Facts.Stable fun d nets => List.Forall₂ (fun a b => R a b d nets) as bs :=
  fun _ _ _ _ hd hd' hext hnets h => h.imp fun a b hab => hR a b hd hd' hext hnets hab

/-- What an action leads to for each of many reasons. -/
theorem Action.wp_forall {ε σ α ι : Type} {m : Action ε σ α} {Q : ι → α → σ → Prop} {s : σ}
    (h : ∀ i, m.wp (Q i) (fun _ _ => True) s) :
    m.wp (fun a t => ∀ i, Q i a t) (fun _ _ => True) s := by
  unfold wp at h ⊢
  split
  next a hresult =>
    intro i
    simpa [hresult] using h i
  · trivial

namespace Operator

variable {env : Environment} {op op' : Operator} {nets : List Net} {name : String}
  {width v : Nat} {lib : Library} {e : Expr}

theorem knows_blank (handle : Handle) (name : String) (period : Float) (pipelined : Bool) :
    Knows (fun _ _ => True) (blank handle name period pipelined) :=
  ⟨fun _ => [], fun env => settled_blank env handle name period pipelined, trivial⟩

theorem Settled.holds_of_root (h : Settled env op nets) {s t : Signal}
    (hs : op.flow.netlist.signal? s.id = some s) (ht : op.flow.netlist.signal? t.id = some t)
    (hroot : op.flow.netlist.root t = op.flow.netlist.root s) (hholds : Holds nets s.name width v) :
    Holds nets t.name width v := by
  have hs' := h.value_root hs
  have ht' := h.value_root ht
  obtain ⟨vs, hvs, hats⟩ := h.holds hs
  obtain ⟨vt, hvt, hatt⟩ := h.holds ht
  have hsame : (⟨s.name, width, v⟩ : Net) = ⟨s.name, s.width.bits, vs⟩ :=
    Option.some.inj (hholds.symm.trans hvs)
  obtain ⟨rfl, rfl⟩ : width = s.width.bits ∧ v = vs := by simpa using hsame
  rw [hroot, ← hs', hats, hatt] at ht'
  obtain rfl : vt = v := by simpa using ht'
  have hwidth : t.width = s.width := by
    rw [← h.sound.width_root ht, hroot, h.sound.width_root hs]
  rwa [hwidth] at hvt

/-- The identifier that is answered has the value of the signal that was asked for. -/
theorem Settled.wp_consume (h : Settled env op nets) (hholds : Holds nets name width v) :
    (consume name).wp (fun a op' => ∃ more, Settled env op' (nets ++ more) ∧
        op.flow.Extends op'.flow ∧ Holds (nets ++ more) a width v ∧
          op'.flow.StandsFor a name ∧ isName a.toList = true)
      (fun _ _ => True) op := by
  refine (wp_consume_exact h.sound name).mono ?_ fun _ _ _ => trivial
  intro a op' hconsumed
  have hlength := hconsumed.lengthened
  have ⟨root, count, hroot, hgains, hstem⟩ := hconsumed.gains
  obtain ⟨more, hsettled⟩ := h.gains hroot hgains hstem hlength
    (hconsumed.schedule.trans h.unfinished)
  obtain ⟨s, t, hs, ht, hsame, -⟩ := hconsumed.answer
  obtain ⟨hs', rfl⟩ := hlength.sound.lawful.find_ok.mp hs
  obtain ⟨ht', rfl⟩ := hlength.sound.lawful.find_ok.mp ht
  refine ⟨more, hsettled, hlength.extends_flow, ?_, ⟨t, s, ht, hs, hsame⟩,
    hsettled.readable.of_mem hsettled.sound ht'⟩
  exact hsettled.holds_of_root hs' ht' hsame (hholds.mono (List.prefix_append _ _))

/-- A field is selected of the identifier that the whole word is answered with. -/
theorem wp_consumeField {w : Width} {field : FloatField} {range : BitRange}
    {Q : String → Operator → Prop} (hwidth : op.flow.HasWidth name w)
    (hrange : w.fieldRange? field = some range)
    (h : (consume name).wp (fun a => Q (range.select a)) (fun _ _ => True) op) :
    (consumeField name field).wp Q (fun _ _ => True) op := by
  unfold consumeField
  rw [wp_bind, wp_find]
  refine ⟨fun s hs => ?_, fun _ _ => trivial⟩
  obtain ⟨t, ht, hw⟩ := hwidth
  obtain rfl : s = t := Except.ok.inj (hs.symm.trans ht)
  rw [hw, hrange]
  exact wp_bind.mpr (h.mono (fun _ _ hQ => wp_pure.mpr hQ) fun _ _ _ => trivial)

theorem Knows.unfinished (h : Knows F op) : op.schedule = none := by
  obtain ⟨nets, hsettled, -⟩ := h
  exact (hsettled ⟨fun _ => 0, fun _ _ _ => 0⟩).unfinished

theorem Knows.mono (h : Knows F op) (hF : ∀ d nets, F d nets → F' d nets) : Knows F' op := by
  obtain ⟨nets, hsettled, hknown⟩ := h
  exact ⟨nets, hsettled, hF _ _ hknown⟩

theorem Knows.wp_consume {value : Environment → Nat} (hF : F.Stable)
    (hvalue : ∀ d nets, F d nets → Valued nets name width value) (h : Knows F op) :
    (consume name).wp (fun a => Knows fun d nets =>
      F d nets ∧ Identifies name width value a d nets) (fun _ _ => True) op := by
  obtain ⟨nets, hsettled, hknown⟩ := h
  have hall := wp_forall fun env => (hsettled env).wp_consume (hvalue _ _ hknown env)
  refine hall.mono (fun a op' hop' => ?_) fun _ _ _ => trivial
  -- the request is the same in every environment, but each has nets of its own
  choose more hsettled' hext hholds hstands hname using hop'
  let env : Environment := ⟨fun _ => 0, fun _ _ _ => 0⟩
  refine ⟨fun env => nets env ++ more env, hsettled', ?_, hholds, hstands env,
    hname env⟩
  exact hF (hsettled env).sound (hsettled' env).sound (hext env)
    (fun env => List.prefix_append _ _) hknown

/-- One more signal, and what is known with it. -/
theorem Knows.declare {value : Environment → Nat} {decl : Declaration} (hF : F.Stable)
    (hvalue : ∀ nets, F op.flow nets → ∀ env,
      driven? env op (nets env) ⟨decl, op.flow.netlist.size⟩ = some (value env))
    (hdriver : ∀ r depth, decl.driver ≠ .stage r depth) (hname : isName decl.name.toList = true)
    (h : Knows F op) (hfree : op.flow.netlist.contains decl.name = false)
    (hflow : op'.flow = { op.flow with netlist := op.flow.netlist.add decl })
    (hinstances : op'.instances = op.instances) (hopen : op'.schedule = none) :
    Knows (fun d nets => F d nets ∧ Valued nets decl.name decl.width.bits value ∧
      ∃ s, d.netlist.find decl.name = .ok s ∧ s.toDeclaration = decl) op' := by
  obtain ⟨nets, hsettled, hknown⟩ := h
  have hdeclared := fun env => (hsettled env).declare hfree hdriver hname (hvalue nets hknown env)
    hflow hinstances hopen
  have hext : op.flow.Extends op'.flow := hflow ▸ ⟨Netlist.extends_add decl, fun hk => hk⟩
  let env : Environment := ⟨fun _ => 0, fun _ _ _ => 0⟩
  refine ⟨_, fun env => (hdeclared env).1, ?_, fun env => (hdeclared env).2,
    ⟨decl, op.flow.netlist.size⟩, ?_, rfl⟩
  · exact hF (hsettled env).sound (hdeclared env).1.sound hext
      (fun env => List.prefix_append _ _) hknown
  · refine (hdeclared env).1.sound.lawful.find_ok.mpr ⟨?_, rfl⟩
    rw [hflow]
    exact Netlist.signal?_add_size decl

/-- What an expression is assigned to is known by its value. -/
theorem Knows.assign {value : Environment → Nat} {own : Nat} (decl : Declaration) (hF : F.Stable)
    (hvalue : ∀ d nets, F d nets → Evaluates nets e own value) (hlegible : Legible .sum e)
    (hdriver : decl.driver = .expr e.text) (hname : isName decl.name.toList = true)
    (h : Knows F op) (hfree : op.flow.netlist.contains decl.name = false)
    (hflow : op'.flow = { op.flow with netlist := op.flow.netlist.add decl })
    (hinstances : op'.instances = op.instances) (hopen : op'.schedule = none) :
    Knows (fun d nets => F d nets ∧
      Valued nets decl.name decl.width.bits (fun env => value env % 2 ^ decl.width.bits) ∧
        d.Declares decl.name decl.width.bits e) op' := by
  have hread := hlegible.read_text
  have hdriven : ∀ nets, F op.flow nets → ∀ env, driven? env op (nets env)
      ⟨decl, op.flow.netlist.size⟩ = some (value env % 2 ^ decl.width.bits) := by
    intro nets hknown env
    obtain ⟨hown, hv⟩ := hvalue _ _ hknown env
    simpa [driven?, hdriver, hread] using Expr.assigned?_of_value? hown hv
  apply Knows.mono
  · exact h.declare hF hdriven (by simp [hdriver]) hname hfree hflow hinstances hopen
  · rintro d nets ⟨hknown, hholds, s, hs, rfl⟩
    exact ⟨hknown, hholds, s, e.text, hs, rfl, hdriver, hread⟩

/-- The declaration of what an expression is assigned to. -/
def defining (op : Operator) (name : String) (role : Role) (width : Nat) (e : Expr) :
    Declaration where
  name
  role
  width := .vector width
  cycle := op.timeline.cycle
  driver := .expr e.text

end Operator

/-! ## Pieces of designs -/

namespace Build

variable {lib : Library} {h : Handle} {name : String} {width own : Nat}
  {value : Environment → Nat} {e : Expr}

/-- An input port of any width. -/
theorem knows_port {w : Width} (hF : F.Stable) (hname : isName name.toList = true) :
    Triple lib h (fun _ => True) (Knows F) (call (.input name w)) fun _ => Knows fun d nets =>
      F d nets ∧ Valued nets name w.bits (inputWord name w.bits) ∧ d.HasWidth name w := by
  refine triple_call fun op _ hop => ⟨hop.unfinished, ?_⟩
  simp only [execute, addInput, wp_bind, wp_declareHere, wp_declare, wp_modify, wp_pure]
  refine ⟨fun _ => trivial, fun hfree => ?_⟩
  let decl : Declaration := ⟨name, .input, .combinational, w, op.timeline.cycle, .port⟩
  have hdriver : ∀ r depth, decl.driver ≠ .stage r depth := by simp [decl]
  apply Knows.mono
  · exact hop.declare hF (fun _ _ _ => rfl) hdriver hname hfree rfl rfl hop.unfinished
  · rintro d nets ⟨hknown, hholds, s, hs, hdecl⟩
    exact ⟨hknown, hholds, s, hs, congrArg Declaration.width hdecl⟩

theorem knows_input (hF : F.Stable) (hname : isName name.toList = true) :
    Triple lib h (fun _ => True) (Knows F) (input name width)
      fun _ => Knows fun d nets => F d nets ∧ Valued nets name width (inputWord name width) :=
  (knows_port hF hname).conseq (fun _ hop => hop)
    fun _ _ hop => hop.mono fun _ _ hknown => ⟨hknown.1, hknown.2.1⟩

/-- An expression is assigned to an internal signal. -/
theorem knows_declare (hF : F.Stable) (hvalue : ∀ d nets, F d nets → Evaluates nets e own value)
    (hlegible : Legible .sum e) (hname : isName name.toList = true) :
    Triple lib h (fun _ => True) (Knows F) (declare name width e.text)
      fun _ => Knows fun d nets => F d nets ∧
        Valued nets name width (fun env => value env % 2 ^ width) ∧ d.Declares name width e := by
  refine triple_call fun op _ hop => ⟨hop.unfinished, ?_⟩
  simp only [execute, wp_bind, wp_declareHere, wp_declare, wp_pure]
  refine ⟨fun _ => trivial, fun hfree => ?_⟩
  exact hop.assign (op.defining name .internal width e) hF hvalue hlegible rfl hname hfree rfl rfl
    hop.unfinished

/-- An expression is assigned to an output of any width. -/
theorem knows_result {w : Width} (hF : F.Stable)
    (hvalue : ∀ d nets, F d nets → Evaluates nets e own value) (hlegible : Legible .sum e)
    (hname : isName name.toList = true) :
    Triple lib h (fun _ => True) (Knows F) (call (.output name w e.text))
      fun _ => Knows fun d nets => F d nets ∧
        Valued nets name w.bits (fun env => value env % 2 ^ w.bits) ∧ d.Declares name w.bits e := by
  refine triple_call fun op _ hop => ⟨hop.unfinished, ?_⟩
  simp only [execute, addOutput, wp_bind, wp_declareHere, wp_declare, wp_modify, wp_pure]
  refine ⟨fun _ => trivial, fun hfree => ?_⟩
  let decl : Declaration :=
    ⟨name, .output, .combinational, w, op.timeline.cycle, .expr e.text⟩
  exact hop.assign decl hF hvalue hlegible rfl hname hfree rfl rfl hop.unfinished

theorem knows_output (hF : F.Stable) (hvalue : ∀ d nets, F d nets → Evaluates nets e own value)
    (hlegible : Legible .sum e) (hname : isName name.toList = true) :
    Triple lib h (fun _ => True) (Knows F) (output name width e.text)
      fun _ => Knows fun d nets => F d nets ∧
        Valued nets name width (fun env => value env % 2 ^ width) ∧ d.Declares name width e :=
  knows_result hF hvalue hlegible hname

/-- The answer is an identifier with the value of the signal. -/
theorem knows_consume (hF : F.Stable)
    (hvalue : ∀ d nets, F d nets → Valued nets name width value) :
    Triple lib h (fun _ => True) (Knows F) (consume name)
      fun a => Knows fun d nets => F d nets ∧ Identifies name width value a d nets :=
  triple_answer rfl fun _ _ hop => ⟨hop.unfinished, hop.wp_consume hF hvalue⟩

theorem knows_accrue (x : Float) :
    Triple lib h (fun _ => True) (Knows F) (accrue x) fun _ => Knows F := by
  refine triple_call fun op _ hop => ⟨hop.unfinished, ?_⟩
  have hmoved : ∀ t, Knows F { op with timeline := t } := fun t => by
    obtain ⟨nets, hsettled, hknown⟩ := hop
    exact ⟨nets, fun env => (hsettled env).congr rfl rfl (hsettled env).unfinished, hknown⟩
  simp only [execute, Operator.accrue, wp_bind, wp_get, wp_ofExcept]
  refine ⟨?_, fun _ _ => trivial⟩
  rintro ⟨accrual, t⟩ -
  cases accrual with
  | fitted => exact hmoved t
  | cut => exact hmoved t

/-- An answer of which something is known already. -/
theorem knows_answer {α : Type} {G : α → Facts} (a : α) (hG : ∀ d nets, F d nets → G a d nets) :
    Triple lib h (fun _ => True) (Knows F) (pure a) fun a => Knows (G a) :=
  fun _ _ hnext op hop hknows => hnext a op hop (hknows.mono hG)

/-- What is known may be used to know how it goes on. -/
theorem knows_of {α : Type} {m : Build α} {Q : α → Operator → Prop} {P : Prop}
    (hP : ∀ d nets, F d nets → P) (hm : P → Triple lib h (fun _ => True) (Knows F) m Q) :
    Triple lib h (fun _ => True) (Knows F) m Q := by
  intro next R hnext op hop hknows
  obtain ⟨nets, hsettled, hknown⟩ := hknows
  exact hm (hP _ _ hknown) next R hnext op hop ⟨nets, hsettled, hknown⟩

/-- From more that is known to less. -/
theorem Triple.weaken {α : Type} {m : Build α} {G G' : α → Facts}
    (hm : Triple lib h (fun _ => True) (Knows F) m fun a => Knows (G a))
    (hG : ∀ a d nets, G a d nets → G' a d nets) :
    Triple lib h (fun _ => True) (Knows F) m fun a => Knows (G' a) :=
  hm.conseq (fun _ hop => hop) fun a _ hop => hop.mono (hG a)

/-- What is known of each answer is known in the end. -/
theorem knows_collect {α β : Type} {f : α → Build β} {items : List α} {R : α → β → Facts}
    (hR : ∀ a b, (R a b).Stable)
    (hstep : ∀ a ∈ items, ∀ G : Facts, G.Stable → (∀ d nets, G d nets → F d nets) →
      Triple lib h (fun _ => True) (Knows G) (f a) fun b => Knows fun d nets => G d nets ∧ R a b d nets)
    (hF : F.Stable) : Triple lib h (fun _ => True) (Knows F) (forEach f items)
      fun bs => Knows fun d nets => F d nets ∧ List.Forall₂ (fun a b => R a b d nets) items bs := by
  induction items generalizing F with
  | nil => exact knows_answer [] fun _ _ hknown => ⟨hknown, .nil⟩
  | cons a items ih =>
      refine (hstep a List.mem_cons_self F hF fun _ _ h => h).bind fun b => ?_
      have hrest := @ih (fun d nets => F d nets ∧ R a b d nets)
        (fun a' ha' G hG hsub => hstep a' (List.mem_cons_of_mem _ ha') G hG
          fun d nets h => (hsub d nets h).1) (hF.and (hR a b))
      refine hrest.bind fun bs => ?_
      exact knows_answer (b :: bs) fun _ _ hknown => ⟨hknown.1.1, .cons hknown.1.2 hknown.2⟩

end Build

end Retime

import Retime.Proofs.Kind.Values
import Retime.Proofs.Timeline.Work
import Retime.Proofs.Verilog.References

/-! # The texts of designs

While a design runs, every text that it has given is an expression on signals that are valid in
the cycle of what the expression drives, and selects no bits but those that these signals have.
The signals are found by the identifiers that consumptions answered with in that cycle.
-/

namespace Retime

open Retime.Action Retime.Operator Retime.Dataflow Retime.Verilog

/-- In that cycle the value of the signal `name` is valid, which has that many bits. -/
def Dataflow.Offers (d : Dataflow) (cycle : Nat) (name : String) (width : Nat) : Prop :=
  ∃ s, d.netlist.find name = .ok s ∧ s.width.bits = width ∧ s.cycle = cycle

theorem Dataflow.Offers.mono {d d' : Dataflow} {cycle : Nat} {name : String} {width : Nat}
    (h : d.Offers cycle name width) (hd : d.Sound) (hd' : d'.Sound) (hext : d.Extends d') :
    d'.Offers cycle name width := by
  obtain ⟨s, hs, hrest⟩ := h
  exact ⟨s, hext.find hd hd' hs, hrest⟩

namespace Operator

/-- The texts of the operator refer to signals of their own cycle, and its copies are connected
to signals. -/
structure LegalTexts (op : Operator) : Prop where
  consistent : op.Consistent
  readable : op.flow.Readable
  legal : ∀ {s text}, op.flow.netlist.signal? s.id = some s → s.driver = .expr text →
    ∃ e, Expr.read text = some e ∧ e.Legal (op.flow.Offers s.cycle)
  wired : ∀ inst ∈ op.instances, ∀ entry ∈ inst.inputs, ∃ id, entry.2 = .signal id

/-- An operator that is described, with such texts. -/
structure Written (op : Operator) : Prop extends LegalTexts op where
  unfinished : op.schedule = none

/-- `op'` has further signals, and what else `op` has. -/
structure Enlarged (op op' : Operator) : Prop where
  sound : op.flow.Sound
  sound_after : op'.flow.Sound
  extends_flow : op.flow.Extends op'.flow
  instances : op'.instances = op.instances
  outputs : op'.outputs = op.outputs
  cycle : op'.timeline.cycle = op.timeline.cycle

/-- A statement that further signals do not change. -/
def Lasting (U : Operator → Prop) : Prop :=
  ∀ ⦃op op' : Operator⦄, op.Enlarged op' → U op → U op'

/-- A statement that further signals and later cycles do not change. -/
structure Enduring (U : Operator → Prop) : Prop where
  lasting : Lasting U
  later : ∀ (op : Operator) (t : Timeline), op.timeline.cycle ≤ t.cycle → U op →
    U { op with timeline := t }

/-- The operator has such texts, and a statement is true of it. -/
structure Writes (U : Operator → Prop) (op : Operator) : Prop where
  written : op.Written
  holds : U op

/-- The input port `name` takes a word of that width in the current cycle. -/
def TakesNow (op : Operator) (name : String) (w : Width) : Prop :=
  ∃ s, op.flow.netlist.find name = .ok s ∧ s.width = w ∧ s.cycle = op.timeline.cycle ∧
    s.driver = .port

/-- The identifier `a` carries the value of the signal `name` in the current cycle. -/
structure Answers (name a : String) (op : Operator) : Prop where
  named : isName a.toList = true
  carries : ∃ s t, op.flow.netlist.find name = .ok s ∧ op.flow.netlist.find a = .ok t ∧
    t.width = s.width ∧ t.cycle = op.timeline.cycle

/-- The expression can be read, and refers to signals that are valid now. -/
structure Current (level : Verilog.Level) (e : Expr) (op : Operator) : Prop where
  legible : Legible level e
  legal : e.Legal (op.flow.Offers op.timeline.cycle)

/-- There is no output yet, and all copies have delivered. -/
structure Due (op : Operator) : Prop where
  outputs : op.outputs = #[]
  delivered : ∀ inst ∈ op.instances, inst.outputCycle ≤ op.timeline.cycle

/-- There is one output, which is valid now, when all copies have delivered. -/
structure Ended (op : Operator) : Prop where
  delivered : ∀ inst ∈ op.instances, inst.outputCycle ≤ op.timeline.cycle
  output : ∃ s delay, op.flow.netlist.signal? s.id = some s ∧ s.cycle = op.timeline.cycle ∧
    op.outputs = #[⟨s.id, delay⟩]

/-- `op'` has one more output, which is valid in the current cycle. -/
structure Concludes (op op' : Operator) : Prop where
  extends_flow : op.flow.Extends op'.flow
  instances : op'.instances = op.instances
  timeline : op'.timeline = op.timeline
  output : ∃ s delay, op'.flow.netlist.signal? s.id = some s ∧ s.cycle = op.timeline.cycle ∧
    op'.outputs = op.outputs.push ⟨s.id, delay⟩

variable {op op' : Operator} {U U' : Operator → Prop} {name a text : String} {w : Width}
  {b e : Expr} {lib : Library} {h : Handle} {level : Verilog.Level} {width : Nat}

/-! ## Lasting statements -/

theorem Lasting.and (hU : Lasting U) (hU' : Lasting U') : Lasting fun op => U op ∧ U' op :=
  fun _ _ hop h => ⟨hU hop h.1, hU' hop h.2⟩

theorem Enduring.and (hU : Enduring U) (hU' : Enduring U') :
    Enduring fun op => U op ∧ U' op where
  lasting := hU.lasting.and hU'.lasting
  later op t hle h := ⟨hU.later op t hle h.1, hU'.later op t hle h.2⟩

theorem lasting_hasWidth (name : String) (w : Width) : Lasting fun op => op.flow.HasWidth name w :=
  fun _ _ hop h => h.mono hop.sound hop.sound_after hop.extends_flow

theorem TakesNow.mono (h : op.TakesNow name w) (hop : op.flow.Sound) (hop' : op'.flow.Sound)
    (hext : op.flow.Extends op'.flow) (hcycle : op'.timeline.cycle = op.timeline.cycle) :
    op'.TakesNow name w := by
  obtain ⟨s, hs, hwidth, hnow, hdriver⟩ := h
  exact ⟨s, hext.find hop hop' hs, hwidth, hnow.trans hcycle.symm, hdriver⟩

theorem lasting_takesNow (name : String) (w : Width) : Lasting fun op => op.TakesNow name w :=
  fun _ _ hop h => h.mono hop.sound hop.sound_after hop.extends_flow hop.cycle

theorem lasting_answers (name a : String) : Lasting (Answers name a) := by
  rintro op op' hop ⟨hnamed, s, t, hs, ht, hwidth, hcycle⟩
  have hs' := hop.extends_flow.find hop.sound hop.sound_after hs
  have ht' := hop.extends_flow.find hop.sound hop.sound_after ht
  exact ⟨hnamed, s, t, hs', ht', hwidth, hcycle.trans hop.cycle.symm⟩

theorem lasting_current (level : Verilog.Level) (e : Expr) : Lasting (Current level e) := by
  rintro op op' hop ⟨hlegible, hlegal⟩
  refine ⟨hlegible, hlegal.mono fun name width hoffers => ?_⟩
  rw [hop.cycle]
  exact hoffers.mono hop.sound hop.sound_after hop.extends_flow

theorem enduring_due : Enduring Due where
  lasting op op' hop h := by
    refine ⟨hop.outputs.trans h.outputs, ?_⟩
    rw [hop.instances, hop.cycle]
    exact h.delivered
  later op t hle h := ⟨h.outputs, fun inst hinst => (h.delivered inst hinst).trans hle⟩

theorem Due.ended (h : op.Due) (hop : op.Concludes op') : op'.Ended := by
  obtain ⟨s, delay, hs, hcycle, houtputs⟩ := hop.output
  constructor
  · rw [hop.instances, hop.timeline]
    exact h.delivered
  · exact ⟨s, delay, hs, by rw [hop.timeline, hcycle], by rw [houtputs, h.outputs]; rfl⟩

theorem TakesNow.hasWidth (h : op.TakesNow name w) : op.flow.HasWidth name w := by
  obtain ⟨s, hs, hwidth, -⟩ := h
  exact ⟨s, hs, hwidth⟩

/-- What is answered has the width of the signal that was asked for. -/
theorem Answers.offers (h : Answers name a op) (hwidth : op.flow.HasWidth name w) :
    op.flow.Offers op.timeline.cycle a w.bits := by
  obtain ⟨-, s, t, hs, ht, hsame, hcycle⟩ := h
  obtain ⟨s', hs', rfl⟩ := hwidth
  obtain rfl := Except.ok.inj (hs.symm.trans hs')
  exact ⟨t, ht, congrArg Width.bits hsame, hcycle⟩

/-! ## Expressions on current values -/

theorem Answers.ident (h : Answers name a op) : Current .primary (.ident a) op := by
  refine ⟨.ident h.named, ?_⟩
  obtain ⟨-, s, t, -, ht, -, hcycle⟩ := h
  exact Expr.legal_ident ⟨t, ht, rfl, hcycle⟩

theorem Answers.slice (h : Answers name a op) (hwidth : op.flow.HasWidth name w) {high low : Nat}
    (hrange : BitRange.Selectable ⟨high, low⟩ w.bits) : Current .primary (.slice a high low) op :=
  ⟨.slice h.named high low, Expr.legal_slice (h.offers hwidth) hrange⟩

theorem Answers.bit (h : Answers name a op) (hwidth : op.flow.HasWidth name w) {position : Nat}
    (hrange : BitRange.Selectable ⟨position, position⟩ w.bits) :
    Current .primary (.bit a position) op :=
  ⟨.bit h.named position, Expr.legal_bit (h.offers hwidth) hrange⟩

theorem current_zero (width : Nat) : Current .primary (.zero width) op :=
  ⟨.zero width, Expr.legal_zero width⟩

theorem Current.factor (h : Current .primary e op) : Current .product e op :=
  ⟨h.legible.factor, h.legal⟩

theorem Current.term (h : Current .product e op) : Current .sum e op :=
  ⟨h.legible.term, h.legal⟩

theorem Current.not (h : Current .primary e op) : Current .primary e.not op :=
  ⟨h.legible.not, h.legal.not⟩

theorem Current.shiftLeft (h : Current .sum e op) (places : Nat) :
    Current .primary (e.shiftLeft places) op :=
  ⟨h.legible.shiftLeft places, h.legal.shiftLeft places⟩

theorem Current.add (h : Current .sum e op) (hb : Current .product b op) :
    Current .sum (e.add b) op :=
  ⟨h.legible.add hb.legible, h.legal.add hb.legal⟩

theorem Current.mul (h : Current .product e op) (hb : Current .primary b op) :
    Current .product (e.mul b) op :=
  ⟨h.legible.mul hb.legible, h.legal.mul hb.legal⟩

theorem current_concat {parts : List Expr} (hne : parts ≠ [])
    (hparts : ∀ e ∈ parts, Current .sum e op) : Current .primary (.concat parts) op :=
  ⟨.concat hne fun e he => (hparts e he).legible, Expr.legal_concat fun e he => (hparts e he).legal⟩

/-- The text of an expression on current values is legal. -/
theorem Current.legal_text (h : Current .sum e op) (htext : Driver.expr e.text = .expr text) :
    ∃ e, Expr.read text = some e ∧ e.Legal (op.flow.Offers op.timeline.cycle) := by
  obtain rfl := Driver.expr.inj htext
  exact ⟨e, h.legible.read_text, h.legal⟩

/-! ## Operators whose texts stay legal -/

theorem written_blank (handle : Handle) (name : String) (period : Float) (pipelined : Bool) :
    (blank handle name period pipelined).Written where
  unfinished := rfl
  consistent := consistent_blank handle name period pipelined
  readable := readable_empty
  legal hs := by simp [blank, Netlist.signal?] at hs
  wired inst hinst := by simp [blank] at hinst

theorem due_blank (handle : Handle) (name : String) (period : Float) (pipelined : Bool) :
    (blank handle name period pipelined).Due where
  outputs := rfl
  delivered inst hinst := by simp [blank] at hinst

theorem writes_blank (handle : Handle) (name : String) (period : Float) (pipelined : Bool) :
    Writes Due (blank handle name period pipelined) :=
  ⟨written_blank handle name period pipelined, due_blank handle name period pipelined⟩

theorem Writes.mono (h : Writes U op) (hU : ∀ op, U op → U' op) : Writes U' op :=
  ⟨h.written, hU op h.holds⟩

theorem LegalTexts.congr (h : op.LegalTexts) (hflow : op'.flow = op.flow)
    (hinputs : op'.inputs = op.inputs) (houtputs : op'.outputs = op.outputs)
    (hinstances : op'.instances = op.instances) : op'.LegalTexts where
  consistent := h.consistent.congr hflow hinputs houtputs hinstances
  readable := hflow ▸ h.readable
  legal := hflow ▸ h.legal
  wired := hinstances ▸ h.wired

/-- New texts are legal, and new copies are connected to signals. -/
theorem Written.extend (hop : op.Written) (hopen : op'.schedule = none) (hcons : op'.Consistent)
    (hread : op'.flow.Readable) (hext : op.flow.Extends op'.flow)
    (hnew : ∀ {s text}, op'.flow.netlist.signal? s.id = some s → s.driver = .expr text →
      op.flow.netlist.signal? s.id = some s ∨
        ∃ e, Expr.read text = some e ∧ e.Legal (op'.flow.Offers s.cycle))
    (hwired : ∀ inst ∈ op'.instances, inst ∈ op.instances ∨
      ∀ entry ∈ inst.inputs, ∃ id, entry.2 = .signal id) : op'.Written where
  unfinished := hopen
  consistent := hcons
  readable := hread
  legal hs hdriver := by
    rcases hnew hs hdriver with hold | hlegal
    · obtain ⟨e, he, hlegal⟩ := hop.legal hold hdriver
      exact ⟨e, he, hlegal.mono fun _ _ hoffers =>
        hoffers.mono hop.consistent.flow hcons.flow hext⟩
    · exact hlegal
  wired inst hinst := (hwired inst hinst).elim (hop.wired inst) id

theorem Declares.enlarged {decl : Declaration} (h : op.Declares op' decl) (hop : op.Written)
    (hcons : op'.Consistent) (houtputs : op'.outputs = op.outputs)
    (htimeline : op'.timeline = op.timeline) : op.Enlarged op' where
  sound := hop.consistent.flow
  sound_after := hcons.flow
  extends_flow := h.persists.flow
  instances := h.instances
  outputs := houtputs
  cycle := congrArg _ htimeline

theorem Declares.find {decl : Declaration} (h : op.Declares op' decl) (hcons : op'.Consistent) :
    op'.flow.netlist.find decl.name = .ok ⟨decl, op.flow.netlist.size⟩ := by
  refine hcons.flow.lawful.find_ok.mpr ⟨?_, rfl⟩
  rw [h.flow]
  exact Netlist.signal?_add_size decl

/-- One more signal; if it has a text, that is legal. -/
theorem Written.declares {decl : Declaration} (hop : op.Written) (h : op.Declares op' decl)
    (hcons : op'.Consistent) (hopen : op'.schedule = none) (hname : isName decl.name.toList = true)
    (hlegal : ∀ text, decl.driver = .expr text →
      ∃ e, Expr.read text = some e ∧ e.Legal (op.flow.Offers decl.cycle)) : op'.Written := by
  have hext := h.persists.flow
  refine hop.extend hopen hcons ?_ hext (fun {s text} hs hdriver => ?_) fun inst hinst => ?_
  · rw [h.flow]
    exact hop.readable.declare hname
  · rw [h.flow] at hs
    rcases Netlist.signal?_add_cases hs with ⟨-, rfl⟩ | hold
    · obtain ⟨e, he, hlegal⟩ := hlegal text hdriver
      exact .inr ⟨e, he, hlegal.mono fun _ _ hoffers =>
        hoffers.mono hop.consistent.flow hcons.flow hext⟩
    · exact .inl hold
  · exact .inl (h.instances ▸ hinst)

theorem Written.consumed (hop : op.Written) (h : Consumed name op a op') : op'.Written := by
  obtain ⟨root, count, hroot, hgains, hstem⟩ := h.gains
  refine hop.extend (h.schedule.trans hop.unfinished) (hop.consistent.lengthened h.lengthened)
    (hop.readable.gains hop.consistent.flow hroot hgains hstem) h.lengthened.extends_flow
    (fun {s text} hs hdriver => ?_) fun inst hinst => ?_
  · rcases h.lengthened.signals hs with hold | hstage
    · exact .inl hold
    · simp [Signal.isStage, hdriver] at hstage
  · exact .inl (h.lengthened.instances ▸ hinst)

theorem Consumed.enlarged (h : Consumed name op a op') (hop : op.Written) : op.Enlarged op' where
  sound := hop.consistent.flow
  sound_after := h.lengthened.sound
  extends_flow := h.lengthened.extends_flow
  instances := h.lengthened.instances
  outputs := h.lengthened.outputs
  cycle := congrArg _ h.timeline

theorem Written.answers (hop : op.Written) (h : Consumed name op a op') : Answers name a op' := by
  obtain ⟨s, t, hs, ht, -, hwidth, hcycle⟩ := h.answer
  obtain ⟨ht', rfl⟩ := h.lengthened.sound.lawful.find_ok.mp ht
  refine ⟨(hop.consumed h).readable.of_mem h.lengthened.sound ht', s, t, hs, ht, hwidth, ?_⟩
  rw [h.timeline, hcycle]

theorem Writes.wp_consume (hU : Lasting U) (hop : Writes U op) (name : String) :
    (consume name).wp (fun a => Writes fun op => U op ∧ Answers name a op) (fun _ _ => True) op :=
  (wp_consume_exact hop.written.consistent.flow name).mono
    (fun _ _ h => ⟨hop.written.consumed h, hU (h.enlarged hop.written) hop.holds,
      hop.written.answers h⟩) fun _ _ _ => trivial

theorem Written.moved (hop : op.Written) (t : Timeline) : Written { op with timeline := t } where
  toLegalTexts := hop.toLegalTexts.congr rfl rfl rfl rfl
  unfinished := hop.unfinished

theorem Written.placed {sub : Handle} {wiring : Wiring} {inst : Instance} {mid last : Operator}
    (hop : op.Written) (h : Instantiates lib sub name wiring op inst mid last)
    (hinputs : ∀ entry ∈ wiring.inputs, ∃ signal, entry.2 = .signal signal)
    (hnames : ∀ entry ∈ wiring.outputs, isName entry.2.toList = true) :
    (last.withInstance inst).Written := by
  have hplacement := h.placement
  have hperformed : Performed lib op _ _ := .instantiate sub name wiring inst hplacement
  refine hop.extend (h.schedule.trans hop.unfinished) (hperformed.consistent hop.consistent)
    (h.readable hop.readable hop.consistent.flow hnames) hplacement.extends_flow
    (fun {s text} hs hdriver => ?_) fun inst' hinst' => ?_
  · rcases hplacement.signals hs with hold | hstage | ⟨-, formal, hinst, -⟩
    · exact .inl hold
    · simp [Signal.isStage, hdriver] at hstage
    · simp [hdriver] at hinst
  · rw [hplacement.instances, Array.mem_push] at hinst'
    refine hinst'.imp_right ?_
    rintro rfl entry hentry
    obtain ⟨id, hid, -⟩ := signals_of_connects hplacement.connects hinputs entry hentry
    exact ⟨id, hid⟩

end Operator

/-! ## Pieces of designs -/

namespace Build

variable {lib : Library} {h : Handle} {U U' : Operator → Prop} {name : String} {w : Width}
  {e : Expr}

/-- A call that stays in its cycle, by what it performs. -/
theorem writes_still {c : Call}
    (hstill : ∀ op, (execute lib c).wp
      (fun _ op' => op'.schedule = op.schedule ∧ op'.timeline = op.timeline) (fun _ _ => True) op)
    (hU : ∀ op op', op.Written → U op → Performed lib op op' c → op'.Consistent →
      op'.schedule = none → op'.timeline = op.timeline → Writes U' op') :
    Triple lib h (fun _ => True) (Writes U) (call c) fun _ => Writes U' := by
  refine triple_call fun op _ hop => ⟨hop.written.unfinished, ?_⟩
  refine ((performed_execute hop.written.consistent.sound lib c).and (hstill op)).mono ?_
    fun _ _ _ => trivial
  rintro - op' ⟨hperformed, hopen, htimeline⟩
  exact hU op op' hop.written hop.holds hperformed (hperformed.consistent hop.written.consistent)
    (hopen.trans hop.written.unfinished) htimeline

theorem writes_input (hU : Lasting U) (hname : isName name.toList = true) :
    Triple lib h (fun _ => True) (Writes U) (call (.input name w))
      fun _ => Writes fun op => U op ∧ op.TakesNow name w := by
  refine writes_still (fun op => by simp [execute, addInput, wp_declareHere, wp_declare]) ?_
  intro op op' hwritten hop hperformed hcons hopen htimeline
  cases hperformed with
  | timeline moves => cases moves
  | input _ _ declares inputs outputs =>
      refine ⟨hwritten.declares declares hcons hopen hname (by simp [declared]),
        hU (declares.enlarged hwritten hcons outputs htimeline) hop,
        _, declares.find hcons, rfl, ?_, rfl⟩
      rw [htimeline]
      rfl

theorem writes_declare {width : Nat} (hU : Lasting U) (hcurrent : ∀ op, U op → Current .sum e op)
    (hname : isName name.toList = true) :
    Triple lib h (fun _ => True) (Writes U) (declare name width e.text)
      fun _ => Writes fun op => U op ∧ op.flow.HasWidth name (.vector width) := by
  refine writes_still (fun op => by simp [execute, wp_declareHere, wp_declare]) ?_
  intro op op' hwritten hop hperformed hcons hopen htimeline
  cases hperformed with
  | timeline moves => cases moves
  | declare _ _ _ _ declares inputs outputs =>
      exact ⟨hwritten.declares declares hcons hopen hname fun _ => (hcurrent op hop).legal_text,
        hU (declares.enlarged hwritten hcons outputs htimeline) hop,
        _, declares.find hcons, rfl⟩

/-- The output that is declared last. -/
theorem writes_output (hcurrent : ∀ op, U op → Current .sum e op)
    (hname : isName name.toList = true)
    (hU : ∀ op op', op.Written → U op → op.Concludes op' → U' op') :
    Triple lib h (fun _ => True) (Writes U) (call (.output name w e.text)) fun _ => Writes U' := by
  refine writes_still (fun op => by simp [execute, addOutput, wp_declareHere, wp_declare]) ?_
  intro op op' hwritten hop hperformed hcons hopen htimeline
  cases hperformed with
  | timeline moves => cases moves
  | output _ _ _ declares inputs outputs =>
      have hfound := (hcons.flow.lawful.find_ok.mp (declares.find hcons)).1
      exact ⟨hwritten.declares declares hcons hopen hname fun _ => (hcurrent op hop).legal_text,
        hU op op' hwritten hop ⟨declares.persists.flow, declares.instances, htimeline,
          _, _, hfound, rfl, outputs⟩⟩

theorem writes_consume (hU : Lasting U) (name : String) :
    Triple lib h (fun _ => True) (Writes U) (consume name)
      fun a => Writes fun op => U op ∧ Answers name a op :=
  triple_answer rfl fun _ _ hop => ⟨hop.written.unfinished, hop.wp_consume hU name⟩

/-- The answer selects the field of an identifier that carries the value. -/
theorem writes_consumeField {field : FloatField} {range : BitRange} (hU : Lasting U)
    (hwidth : ∀ op, U op → op.flow.HasWidth name w) (hrange : w.fieldRange? field = some range) :
    Triple lib h (fun _ => True) (Writes U) (ask (.consumeField name field)) fun text op =>
      ∃ a, text = range.select a ∧ Writes (fun op => U op ∧ Answers name a op) op := by
  refine triple_answer rfl fun op _ hop => ⟨hop.written.unfinished, ?_⟩
  exact wp_consumeField (hwidth op hop.holds) hrange
    ((hop.wp_consume hU name).mono (fun a _ hop' => ⟨a, rfl, hop'⟩) fun _ _ _ => trivial)

/-- Work does not go back in time. -/
theorem writes_accrue (x : Float) (hU : ∀ (op : Operator) (t : Timeline),
      op.timeline.cycle ≤ t.cycle → U op → U' { op with timeline := t }) :
    Triple lib h (fun _ => True) (Writes U) (accrue x) fun _ => Writes U' := by
  refine triple_call fun op _ hop => ⟨hop.written.unfinished, ?_⟩
  simp only [execute, Operator.accrue, wp_bind, wp_get, wp_ofExcept]
  refine ⟨?_, fun _ _ => trivial⟩
  rintro ⟨accrual, t⟩ ht
  have hle : op.timeline.cycle ≤ t.cycle :=
    Timeline.cycle_le_of_accrue (x := x) (by simp [Timeline.move, ht, Except.map])
  have hmoved : Writes U' { op with timeline := t } :=
    ⟨hop.written.moved t, hU op t hle hop.holds⟩
  cases accrual with
  | fitted => exact hmoved
  | cut => exact hmoved

/-- The timeline goes on to the cycle of a signal. -/
theorem writes_join (name : String) (hU : ∀ (op : Operator) (t : Timeline) (s : Signal),
      op.Written → op.flow.netlist.find name = .ok s → op.timeline.cycle ≤ t.cycle →
        s.cycle ≤ t.cycle → U op → U' { op with timeline := t }) :
    Triple lib h (fun _ => True) (Writes U) (call (.join name)) fun _ => Writes U' := by
  refine triple_call fun op _ hop => ⟨hop.written.unfinished, ?_⟩
  simp only [execute, wp_bind, wp_pure]
  refine wp_find.mpr ⟨fun s hs => wp_onTimeline.mpr ⟨fun t ht => ?_, fun _ _ => trivial⟩,
    fun _ _ => trivial⟩
  obtain rfl := Except.ok.inj ht
  have hle : op.timeline.cycle ≤ (op.timeline.join s.cycle).cycle ∧
      s.cycle ≤ (op.timeline.join s.cycle).cycle := by
    unfold Timeline.join
    split <;> simp <;> omega
  exact ⟨hop.written.moved _, hU op _ s hop.written hs hle.1 hle.2 hop.holds⟩

theorem writes_instantiate {sub : Handle} {wiring : Wiring}
    (hinputs : ∀ entry ∈ wiring.inputs, ∃ signal, entry.2 = .signal signal)
    (hnames : ∀ entry ∈ wiring.outputs, isName entry.2.toList = true)
    (hU : ∀ op op' inst, Placement lib sub name wiring op op' inst → op.Written →
      op'.timeline.cycle = op.timeline.cycle → U op → U' op') :
    Triple lib h (fun _ => True) (Writes U) (call (.instantiate sub name wiring))
      fun _ => Writes U' := by
  refine triple_call fun op _ hop => ⟨hop.written.unfinished, ?_⟩
  simp only [execute, wp_bind, wp_pure]
  refine (wp_instantiate_steps hop.written.consistent.flow lib sub name wiring).mono ?_
    fun _ _ _ => trivial
  rintro - _ ⟨inst, mid, last, hsteps, rfl⟩
  exact ⟨hop.written.placed hsteps hinputs hnames,
    hU op _ inst hsteps.placement hop.written hsteps.cycle_eq hop.holds⟩

/-- An answer of which something is known already. -/
theorem writes_answer {α : Type} {V : α → Operator → Prop} (a : α) (hV : ∀ op, U op → V a op) :
    Triple lib h (fun _ => True) (Writes U) (pure a) fun a => Writes (V a) :=
  fun _ _ hnext op hop hwrites => hnext a op hop (hwrites.mono hV)

theorem Triple.drop {α : Type} {m : Build α} {V V' : α → Operator → Prop}
    (hm : Triple lib h (fun _ => True) (Writes U) m fun a => Writes (V a))
    (hV : ∀ a op, V a op → V' a op) :
    Triple lib h (fun _ => True) (Writes U) m fun a => Writes (V' a) :=
  hm.conseq (fun _ hop => hop) fun a _ hop => hop.mono (hV a)

/-- What is true of each answer stays true to the end. -/
theorem writes_collect {α β : Type} {f : α → Build β} {items : List α} {V : β → Operator → Prop}
    (hV : ∀ b, Lasting (V b))
    (hstep : ∀ a ∈ items, ∀ W : Operator → Prop, Lasting W → (∀ op, W op → U op) →
      Triple lib h (fun _ => True) (Writes W) (f a) fun b => Writes fun op => W op ∧ V b op)
    (hU : Lasting U) : Triple lib h (fun _ => True) (Writes U) (forEach f items) fun bs =>
      Writes fun op => U op ∧ bs.length = items.length ∧ ∀ b ∈ bs, V b op := by
  induction items generalizing U with
  | nil => exact writes_answer [] fun _ h => ⟨h, rfl, by simp⟩
  | cons a items ih =>
      refine (hstep a List.mem_cons_self U hU fun _ h => h).bind fun b => ?_
      have hrest := @ih (fun op => U op ∧ V b op)
        (fun a' ha' W hW hsub => hstep a' (List.mem_cons_of_mem _ ha') W hW
          fun op h => (hsub op h).1) (hU.and (hV b))
      refine hrest.bind fun bs => writes_answer (b :: bs) fun op h => ?_
      obtain ⟨⟨hknown, hb⟩, hlength, hbs⟩ := h
      exact ⟨hknown, congrArg Nat.succ hlength, List.forall_mem_cons.mpr ⟨hb, hbs⟩⟩

end Build

end Retime

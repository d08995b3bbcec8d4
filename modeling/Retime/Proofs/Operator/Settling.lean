import Retime.Proofs.Operator.Face
import Retime.Proofs.Operator.Placing
import Retime.Proofs.Verilog.Values

/-! # What operators settle to

Without regard to time every signal has one value: an input port has a word, an expression the
value that it has on the signals before it, a stage the value of its root, and an output of an
instance is a function of the values at the inputs of the instance. Signals that are declared
later leave the values of those before them as they are.
-/

namespace Retime

open Verilog

/-! ## Names -/

namespace Dataflow

/-- All signals have names that can be read, and stages are named after their roots. -/
structure Readable (d : Dataflow) : Prop where
  stem : ∀ r, (d.line r).stem = none
  named : ∀ s ∈ d.netlist.signals.toList, isName s.name.toList = true

theorem readable_empty : ({} : Dataflow).Readable where
  stem _ := by simp [line]
  named s hs := by simp at hs

variable {d d' : Dataflow} {root : Signal}

theorem Readable.stem_eq (h : d.Readable) (root : Signal) : d.stem root = root.name := by
  simp [Dataflow.stem, h.stem]

theorem Readable.of_mem (h : d.Readable) (hd : d.Sound) {s : Signal}
    (hs : d.netlist.signal? s.id = some s) : isName s.name.toList = true :=
  h.named s (hd.lawful.mem_signals.mpr hs)

/-- Stages of what can be read can be read. -/
theorem Readable.stage (h : d.Readable) (hd : d.Sound)
    (hroot : d.netlist.signal? root.id = some root) (depth : Nat) :
    isName (stageOf root (d.stem root) depth).name.toList = true := by
  rw [h.stem_eq]
  exact isName_stageName (h.of_mem hd hroot) depth

theorem Readable.append (h : d.Readable) {new : List Signal}
    (hsignals : d'.netlist.signals.toList = d.netlist.signals.toList ++ new)
    (hstem : ∀ r, (d'.line r).stem = (d.line r).stem)
    (hnew : ∀ s ∈ new, isName s.name.toList = true) : d'.Readable where
  stem r := (hstem r).trans (h.stem r)
  named s hs := by
    rw [hsignals] at hs
    rcases List.mem_append.mp hs with hold | hs
    · exact h.named s hold
    · exact hnew s hs

theorem Readable.declare (h : d.Readable) {decl : Declaration}
    (hname : isName decl.name.toList = true) :
    Readable { d with netlist := d.netlist.add decl } := by
  refine h.append Array.toList_push (fun _ => rfl) fun s hs => ?_
  obtain rfl := List.mem_singleton.mp hs
  exact hname

theorem Readable.gains (h : d.Readable) (hd : d.Sound)
    (hroot : d.netlist.signal? root.id = some root) {count : Nat} (hgains : d.Gains root count d')
    (hstem : (d'.line root.id).stem = (d.line root.id).stem) : d'.Readable := by
  apply h.append hgains.signals
  · intro r
    by_cases hr : r = root.id
    · rw [hr, hstem]
    · rw [hgains.others r hr]
  · intro s hs
    obtain ⟨k, -, rfl⟩ := List.mem_map.mp hs
    exact h.stage hd hroot _

end Dataflow

namespace Operator

/-- What is placed can be read if its outputs are given names that can be. -/
theorem Instantiates.readable {lib : Library} {sub : Handle} {name : String} {wiring : Wiring}
    {op mid last : Operator} {inst : Instance}
    (h : Instantiates lib sub name wiring op inst mid last) (hop : op.flow.Readable)
    (hsound : op.flow.Sound) (hnames : ∀ entry ∈ wiring.outputs, isName entry.2.toList = true) :
    (last.withInstance inst).flow.Readable := by
  obtain ⟨stages, outs, hsignals, -, hstages, houts⟩ := h.signals
  rw [List.append_assoc] at hsignals
  refine hop.append hsignals h.stem_eq fun s hs => ?_
  rcases List.mem_append.mp hs with hs | hs
  · obtain ⟨root, depth, hroot, hdecl⟩ := hstages s hs
    rw [show s.name = _ from congrArg Declaration.name hdecl]
    exact hop.stage hsound hroot depth
  · have hdecl : s.toDeclaration ∈ outs.map (·.toDeclaration) := List.mem_map_of_mem hs
    rw [houts] at hdecl
    obtain ⟨p, -, hp⟩ := List.mem_filterMap.mp hdecl
    obtain ⟨out, hlookup, hdriven⟩ := Option.map_eq_some_iff.mp hp
    rw [show s.name = out from congrArg Declaration.name hdriven.symm]
    obtain ⟨before, after, hentries, -⟩ := List.lookup_eq_some_iff.mp hlookup
    exact hnames (p.name, out) (by simp [hentries])

end Operator

/-! ## Values -/

/-- What operators depend on: the words at the input ports, and the outputs of an instance by
the values at its inputs. -/
structure Environment where
  word : String → Nat
  output : Instance → List (String × Nat) → String → Nat

namespace Operator

/-- The value at an input of that width. -/
def actualValue? (nets : List Net) (width : Nat) : Actual → Option Nat
  | .signal id => nets[id]?.map (·.value)
  | .constant text => do (← Expr.read text).assigned? nets width

/-- The values at the inputs of an instance. -/
def inputValues? (nets : List Net) (inst : Instance) : Option (List (String × Nat)) :=
  (inst.inputs.zip inst.interface.inputs).mapM fun (entry, p) =>
    (actualValue? nets p.width.bits entry.2).map fun v => (entry.1, v)

/-- The value of a signal, where `nets` are those before it. -/
def driven? (env : Environment) (op : Operator) (nets : List Net) (s : Signal) : Option Nat :=
  match s.driver with
  | .port => some (env.word s.name % 2 ^ s.width.bits)
  | .expr text => do (← Expr.read text).assigned? nets s.width.bits
  | .stage root _ => nets[root]?.map (·.value)
  | .inst i formal => do
    let inst ← op.instances[i]?
    let values ← inputValues? nets inst
    return env.output inst values formal % 2 ^ s.width.bits

/-- The nets after further signals. -/
def settleFrom (env : Environment) (op : Operator) (nets : List Net) :
    List Signal → Option (List Net)
  | [] => some nets
  | s :: rest => do
    let v ← driven? env op nets s
    settleFrom env op (nets ++ [⟨s.name, s.width.bits, v⟩]) rest

/-- The nets of an operator, in the order of its signals, if all of them have values. -/
def settle (env : Environment) (op : Operator) : Option (List Net) :=
  settleFrom env op [] op.flow.netlist.signals.toList

variable {env : Environment} {op op' : Operator} {nets nets' : List Net} {s : Signal}
  {l l' : List Signal}

/-! ## One signal after another -/

theorem settleFrom_append : settleFrom env op nets (l ++ l') =
    (settleFrom env op nets l).bind (settleFrom env op · l') := by
  induction l generalizing nets with
  | nil => rfl
  | cons s l ih => simp [settleFrom, ih, Option.bind_assoc]

theorem settleFrom_of_driven (h : driven? env op' = driven? env op) :
    settleFrom env op' nets l = settleFrom env op nets l := by
  induction l generalizing nets with
  | nil => rfl
  | cons s l ih => simp [settleFrom, ih, h]

theorem settleFrom_congr (h : op'.instances = op.instances) :
    settleFrom env op' nets l = settleFrom env op nets l := by
  apply settleFrom_of_driven
  funext nets s
  simp only [driven?, h]

theorem settleFrom_begins (h : settleFrom env op nets l = some nets') :
    nets <+: nets' ∧ nets'.length = nets.length + l.length := by
  induction l generalizing nets with
  | nil =>
      obtain rfl : nets = nets' := Option.some.inj h
      exact ⟨List.prefix_refl nets, rfl⟩
  | cons s l ih =>
      simp only [settleFrom, Option.bind_eq_bind, Option.bind_eq_some_iff] at h
      obtain ⟨v, -, hrest⟩ := h
      obtain ⟨hbegins, hlength⟩ := ih hrest
      refine ⟨(List.prefix_append _ _).trans hbegins, ?_⟩
      simp only [List.length_append, List.length_cons, List.length_nil] at hlength ⊢
      omega

/-- Each signal has its net, with the value that it has by those before it. -/
theorem settleFrom_getElem? (h : settleFrom env op nets l = some nets') {i : Nat}
    (hs : l[i]? = some s) : ∃ before v, before <+: nets' ∧ driven? env op before s = some v ∧
      nets'[nets.length + i]? = some ⟨s.name, s.width.bits, v⟩ := by
  induction l generalizing nets i with
  | nil => simp at hs
  | cons t l ih =>
      simp only [settleFrom, Option.bind_eq_bind, Option.bind_eq_some_iff] at h
      obtain ⟨v, hv, hrest⟩ := h
      cases i with
      | zero =>
          obtain rfl : t = s := by simpa using hs
          obtain ⟨hbegins, -⟩ := settleFrom_begins hrest
          refine ⟨nets, v, (List.prefix_append _ _).trans hbegins, hv, ?_⟩
          obtain ⟨more, rfl⟩ := hbegins
          simp
      | succ i =>
          obtain ⟨before, v', hbefore, hv', hnet⟩ := ih hrest (by simpa using hs)
          refine ⟨before, v', hbefore, hv', ?_⟩
          rw [List.length_append, List.length_singleton, Nat.add_assoc, Nat.add_comm 1] at hnet
          exact hnet

/-- Signals that have values whatever comes before them. -/
theorem settleFrom_exists (h : ∀ s ∈ l, ∀ more, ∃ v, driven? env op (nets ++ more) s = some v) :
    ∃ nets', settleFrom env op nets l = some nets' := by
  induction l generalizing nets with
  | nil => exact ⟨nets, rfl⟩
  | cons s l ih =>
      obtain ⟨v, hv⟩ := h s List.mem_cons_self []
      rw [List.append_nil] at hv
      have hrest := @ih (nets ++ [⟨s.name, s.width.bits, v⟩]) fun t ht more => by
        rw [List.append_assoc]
        exact h t (List.mem_cons_of_mem _ ht) _
      simpa [settleFrom, hv] using hrest

/-- Stages of signals that are there have values. -/
theorem settleFrom_stages
    (h : ∀ s ∈ l, ∃ root depth, s.driver = .stage root depth ∧ root < nets.length) :
    ∃ nets', settleFrom env op nets l = some nets' := by
  refine settleFrom_exists fun s hs more => ?_
  obtain ⟨root, depth, hdriver, hlt⟩ := h s hs
  have hat : (nets ++ more)[root]? = some nets[root] := by
    rw [List.getElem?_append_left hlt, List.getElem?_eq_getElem hlt]
  exact ⟨nets[root].value, by simp [driven?, hdriver, hat]⟩

/-- The inputs of an instance have values if the signals are there that they are connected to. -/
theorem inputValues?_exists {inst : Instance}
    (h : ∀ entry ∈ inst.inputs, ∃ id, entry.2 = .signal id ∧ id < nets.length) :
    ∃ values, inputValues? nets inst = some values := by
  unfold inputValues?
  have hzip : ∀ pair ∈ inst.inputs.zip inst.interface.inputs,
      ∃ id, pair.1.2 = .signal id ∧ id < nets.length :=
    fun pair hpair => h pair.1 (List.of_mem_zip hpair).1
  generalize inst.inputs.zip inst.interface.inputs = pairs at hzip
  induction pairs with
  | nil => exact ⟨[], rfl⟩
  | cons pair pairs ih =>
      obtain ⟨values, hvalues⟩ := ih fun pair' hpair' => hzip pair' (List.mem_cons_of_mem _ hpair')
      obtain ⟨id, hsignal, hlt⟩ := hzip pair List.mem_cons_self
      have hvalue : actualValue? nets pair.2.width.bits pair.1.2 = some nets[id].value := by
        simp [hsignal, actualValue?, hlt]
      exact ⟨(pair.1.1, nets[id].value) :: values, by simp [hvalue, hvalues]⟩

/-- What an instance drives has a value when its inputs have. -/
theorem driven?_exists_of_inst {inst : Instance} {i : Nat} {formal : String} {more : List Net}
    (hinst : op.instances[i]? = some inst)
    (hsources : ∀ entry ∈ inst.inputs, ∃ id, entry.2 = .signal id ∧ id < nets.length)
    (hdriver : s.driver = .inst i formal) : ∃ v, driven? env op (nets ++ more) s = some v := by
  obtain ⟨values, hvalues⟩ := @inputValues?_exists (nets ++ more) inst fun entry hentry => by
    obtain ⟨id, hid, hlt⟩ := hsources entry hentry
    exact ⟨id, hid, Nat.lt_of_lt_of_le hlt (by simp)⟩
  exact ⟨env.output inst values formal % 2 ^ s.width.bits,
    by simp [driven?, hdriver, hinst, hvalues]⟩

/-- Instances that are entered later make no difference. -/
theorem driven?_of_entered
    (hkept : ∀ {i : Nat} {inst}, op.instances[i]? = some inst → op'.instances[i]? = some inst)
    {v : Nat} (h : driven? env op nets s = some v) : driven? env op' nets s = some v := by
  unfold driven? at h ⊢
  split at h
  · exact h
  · exact h
  · exact h
  next i formal hdriver =>
    simp only [Option.bind_eq_bind, Option.bind_eq_some_iff] at h ⊢
    obtain ⟨inst, hinst, hrest⟩ := h
    exact ⟨inst, hkept hinst, hrest⟩

theorem settleFrom_of_entered
    (hkept : ∀ {i : Nat} {inst}, op.instances[i]? = some inst → op'.instances[i]? = some inst)
    (h : settleFrom env op nets l = some nets') : settleFrom env op' nets l = some nets' := by
  induction l generalizing nets with
  | nil => exact h
  | cons s l ih =>
      simp only [settleFrom, Option.bind_eq_bind, Option.bind_eq_some_iff] at h ⊢
      obtain ⟨v, hv, hrest⟩ := h
      exact ⟨v, driven?_of_entered hkept hv, ih hrest⟩

/-! ## Settled operators -/

/-- An operator that is described, whose signals have names that can be read, and what it
settles to. -/
structure Settled (env : Environment) (op : Operator) (nets : List Net) : Prop where
  unfinished : op.schedule = none
  sound : op.flow.Sound
  readable : op.flow.Readable
  settles : op.settle env = some nets

theorem settled_blank (env : Environment) (handle : Handle) (name : String) (period : Float)
    (pipelined : Bool) : Settled env (blank handle name period pipelined) [] where
  unfinished := rfl
  sound := Dataflow.sound_empty
  readable := Dataflow.readable_empty
  settles := by simp [settle, blank, settleFrom]

section Settled

variable (h : Settled env op nets)
include h

theorem Settled.congr (hflow : op'.flow = op.flow) (hinstances : op'.instances = op.instances)
    (hopen : op'.schedule = none) : Settled env op' nets where
  unfinished := hopen
  sound := hflow ▸ h.sound
  readable := hflow ▸ h.readable
  settles := by
    rw [settle, settleFrom_congr hinstances, hflow]
    exact h.settles

theorem Settled.length_eq : nets.length = op.flow.netlist.size := by
  simpa [Netlist.size] using (settleFrom_begins h.settles).2

theorem Settled.getElem? (hs : op.flow.netlist.signal? s.id = some s) :
    ∃ before v, before <+: nets ∧ driven? env op before s = some v ∧
      nets[s.id]? = some ⟨s.name, s.width.bits, v⟩ := by
  have hplace : op.flow.netlist.signals.toList[s.id]? = some s := by
    rw [Array.getElem?_toList]
    exact hs
  simpa using settleFrom_getElem? h.settles hplace

/-- The signal of a net. -/
theorem Settled.signal {i : Nat} {net : Net} (hnet : nets[i]? = some net) :
    ∃ s, op.flow.netlist.signal? s.id = some s ∧ s.id = i ∧ s.name = net.name := by
  have hlt : i < op.flow.netlist.size := h.length_eq ▸ (List.getElem?_eq_some_iff.mp hnet).1
  have hs : op.flow.netlist.signal? i = some op.flow.netlist.signals[i] :=
    Array.getElem?_eq_getElem hlt
  have hid := h.sound.lawful.id_eq hs
  have hs' : op.flow.netlist.signal? op.flow.netlist.signals[i].id =
      some op.flow.netlist.signals[i] := hid.symm ▸ hs
  obtain ⟨before, v, -, -, hat⟩ := h.getElem? hs'
  rw [hid, hnet] at hat
  exact ⟨_, hs', hid, by rw [Option.some.inj hat]⟩

/-- Nets are found by their names. -/
theorem Settled.net?_eq (hs : op.flow.netlist.signal? s.id = some s) :
    net? nets s.name = nets[s.id]? := by
  obtain ⟨before, v, -, -, hnet⟩ := h.getElem? hs
  rw [hnet, net?, List.find?_eq_some_iff_getElem]
  obtain ⟨hlt, hat⟩ := List.getElem?_eq_some_iff.mp hnet
  refine ⟨by simp, s.id, hlt, hat, fun j hj => ?_⟩
  obtain ⟨t, ht, hid, hname⟩ := h.signal (List.getElem?_eq_getElem (hj.trans hlt))
  simp only [Bool.not_eq_eq_eq_not, Bool.not_true, decide_eq_false_iff_not]
  intro hsame
  obtain rfl := h.sound.lawful.eq_of_name ht hs (hname.trans hsame)
  exact Nat.ne_of_lt hj hid.symm

theorem Settled.net?_eq_none {name : String} (hfree : op.flow.netlist.contains name = false) :
    net? nets name = none := by
  rw [net?, List.find?_eq_none]
  intro net hnet hname
  obtain ⟨i, hi⟩ := List.mem_iff_getElem?.mp hnet
  obtain ⟨s, hs, -, hsame⟩ := h.signal hi
  have htaken := h.sound.lawful.contains_iff.mpr ⟨s, hs, hsame.trans (of_decide_eq_true hname)⟩
  rw [hfree] at htaken
  cases htaken

/-- The value of a signal, by its name. -/
theorem Settled.holds (hs : op.flow.netlist.signal? s.id = some s) :
    ∃ v, Holds nets s.name s.width.bits v ∧ nets[s.id]? = some ⟨s.name, s.width.bits, v⟩ := by
  obtain ⟨before, v, -, -, hnet⟩ := h.getElem? hs
  exact ⟨v, (h.net?_eq hs).trans hnet, hnet⟩

/-- A signal has the value of its root. -/
theorem Settled.value_root (hs : op.flow.netlist.signal? s.id = some s) :
    nets[s.id]?.map (·.value) = nets[(op.flow.netlist.root s).id]?.map (·.value) := by
  unfold Netlist.root
  split
  next r depth hdriver =>
    obtain ⟨k, rfl, hk⟩ := h.sound.place hs hdriver
    obtain ⟨root, hroot, -⟩ := h.sound.stage hk
    obtain ⟨before, v, hbefore, hv, hnet⟩ := h.getElem? hs
    obtain ⟨net, hat, rfl⟩ : ∃ net, before[r]? = some net ∧ net.value = v := by
      simpa [driven?, hdriver] using hv
    obtain ⟨more, rfl⟩ := hbefore
    have hlt := (List.getElem?_eq_some_iff.mp hat).1
    rw [hroot, Option.getD_some, h.sound.lawful.id_eq hroot, hnet,
      List.getElem?_append_left hlt, hat]
    rfl
  · rfl

/-- One more signal. -/
theorem Settled.declare {decl : Declaration} {v : Nat}
    (hfree : op.flow.netlist.contains decl.name = false)
    (hdriver : ∀ r depth, decl.driver ≠ .stage r depth) (hname : isName decl.name.toList = true)
    (hvalue : driven? env op nets ⟨decl, op.flow.netlist.size⟩ = some v)
    (hflow : op'.flow = { op.flow with netlist := op.flow.netlist.add decl })
    (hinstances : op'.instances = op.instances) (hopen : op'.schedule = none) :
    Settled env op' (nets ++ [⟨decl.name, decl.width.bits, v⟩]) ∧
      Holds (nets ++ [⟨decl.name, decl.width.bits, v⟩]) decl.name decl.width.bits v := by
  refine ⟨⟨hopen, ?_, ?_, ?_⟩, holds_new (h.net?_eq_none hfree)⟩
  · rw [hflow]
    exact h.sound.declare hfree hdriver
  · rw [hflow]
    exact h.readable.declare hname
  · have hsettles := h.settles
    unfold settle at hsettles ⊢
    rw [settleFrom_congr hinstances, hflow]
    simp only [Netlist.add, Array.toList_push]
    rw [settleFrom_append, hsettles, Option.bind_some]
    simp [settleFrom, hvalue]

/-- Stages were appended. -/
theorem Settled.gains {root : Signal} {count : Nat}
    (hroot : op.flow.netlist.signal? root.id = some root)
    (hgains : op.flow.Gains root count op'.flow)
    (hstem : (op'.flow.line root.id).stem = (op.flow.line root.id).stem)
    (hlength : op.Lengthened op') (hopen : op'.schedule = none) :
    ∃ more, Settled env op' (nets ++ more) := by
  obtain ⟨nets', hnets'⟩ := @settleFrom_stages env op nets (op.flow.nextStages root count)
    fun t ht => by
      obtain ⟨k, -, rfl⟩ := List.mem_map.mp ht
      exact ⟨root.id, _, rfl, h.length_eq ▸ Netlist.lt_size_of_signal? hroot⟩
  obtain ⟨more, rfl⟩ := (settleFrom_begins hnets').1
  refine ⟨more, hopen, hlength.sound, h.readable.gains h.sound hroot hgains hstem, ?_⟩
  · have hsettles := h.settles
    unfold settle at hsettles ⊢
    rw [settleFrom_congr hlength.instances, hgains.signals, settleFrom_append, hsettles,
      Option.bind_some]
    exact hnets'

/-- An instance was placed, all of whose inputs are connected to signals. -/
theorem Settled.place {lib : Library} {sub : Handle} {name : String} {wiring : Wiring}
    {inst : Instance} {mid last : Operator}
    (hsteps : Instantiates lib sub name wiring op inst mid last)
    (hinputs : ∀ entry ∈ wiring.inputs, ∃ signal, entry.2 = .signal signal)
    (hnames : ∀ entry ∈ wiring.outputs, isName entry.2.toList = true) :
    ∃ more, Settled env (last.withInstance inst) (nets ++ more) := by
  have hplacement := hsteps.placement
  have hkept : ∀ {i : Nat} {inst'}, op.instances[i]? = some inst' →
      (last.withInstance inst).instances[i]? = some inst' := hplacement.instances_kept
  obtain ⟨stages, outs, hsignals, hmid, hstages, houts⟩ := hsteps.signals
  obtain ⟨nets₁, hnets₁⟩ := @settleFrom_stages env (last.withInstance inst) nets stages
    fun t ht => by
      obtain ⟨root, depth, hroot, hdecl⟩ := hstages t ht
      exact ⟨root.id, depth, congrArg Declaration.driver hdecl,
        h.length_eq ▸ Netlist.lt_size_of_signal? hroot⟩
  have hlength : nets₁.length = mid.flow.netlist.size := by
    have hsize := congrArg List.length hmid
    rw [List.length_append, Array.length_toList, Array.length_toList] at hsize
    rw [(settleFrom_begins hnets₁).2, h.length_eq]
    exact hsize.symm
  have hinst : (last.withInstance inst).instances[op.instances.size]? = some inst := by
    rw [hplacement.instances]
    exact Array.getElem?_push_size
  -- the inputs are connected to signals that are there before the outputs
  have hsources : ∀ entry ∈ inst.inputs, ∃ id, entry.2 = .signal id ∧ id < nets₁.length := by
    intro entry hentry
    obtain ⟨id, hid, s, hs⟩ := signals_of_connects hsteps.bound.connects hinputs entry hentry
    exact ⟨id, hid, hlength ▸ Netlist.lt_size_of_signal? hs⟩
  obtain ⟨nets₂, hnets₂⟩ := @settleFrom_exists env (last.withInstance inst) nets₁ outs
    fun t ht more => by
      have hdecl : t.toDeclaration ∈ outs.map (·.toDeclaration) := List.mem_map_of_mem ht
      rw [houts] at hdecl
      obtain ⟨p, -, hp⟩ := List.mem_filterMap.mp hdecl
      obtain ⟨out, -, hdriven⟩ := Option.map_eq_some_iff.mp hp
      exact driven?_exists_of_inst hinst hsources
        (congrArg Declaration.driver hdriven.symm : t.driver = .inst _ p.name)
  obtain ⟨more, rfl⟩ := (settleFrom_begins hnets₁).1.trans (settleFrom_begins hnets₂).1
  refine ⟨more, hsteps.schedule.trans h.unfinished, hplacement.sound,
    hsteps.readable h.readable h.sound hnames, ?_⟩
  have hsettles := settleFrom_of_entered hkept h.settles
  unfold settle
  show settleFrom env _ [] last.flow.netlist.signals.toList = _
  rw [hsignals, settleFrom_append, settleFrom_append, hsettles, Option.bind_some, hnets₁,
    Option.bind_some, hnets₂]

end Settled

end Operator

end Retime

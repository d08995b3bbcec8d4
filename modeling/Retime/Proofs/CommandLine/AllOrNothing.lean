import Retime.Proofs.CommandLine.Delivery
import Retime.Proofs.Kind.Schedulable
import Retime.Proofs.Library.Permanence

/-! # All or nothing

A run settles everything that can go wrong before it writes: the sizes, the settings with what
overrides them, and the generation itself. So it either leaves the files alone, or it writes what
it was asked for, which the library that was generated determines.
-/

namespace Retime

/-! ## Settings -/

/-- What settings have to be for operators to be generated. -/
structure Settings.Valid (s : Settings) : Prop where
  frequency : s.frequencyMhz.isFinite ∧ 0 < s.frequencyMhz
  delays : s.delays.Proper
  lutInputs : 2 ≤ s.delays.lutInputs

theorem Settings.check_eq_ok {s : Settings} : s.check = .ok () ↔ s.Valid := by
  unfold check
  split
  next hfrequency => exact ⟨nofun, fun hs => absurd hs.frequency hfrequency⟩
  next hfrequency =>
    rw [not_not] at hfrequency
    split
    next name x hfound =>
      have hmem := List.mem_of_find?_eq_some hfound
      have hbad := List.find?_some hfound
      exact ⟨nofun, fun hs => absurd (hs.delays _ hmem) (of_decide_eq_true hbad)⟩
    next hnone =>
      have hdelays : s.delays.Proper := by
        intro d hd
        by_contra hbad
        exact List.find?_eq_none.mp hnone d hd (decide_eq_true hbad)
      split
      next hfew => exact ⟨nofun, fun hs => absurd hs.lutInputs (Nat.not_le.mpr hfew)⟩
      next hmany => exact ⟨fun _ => ⟨hfrequency, hdelays, Nat.not_lt.mp hmany⟩, fun _ => rfl⟩

namespace CommandLine

/-- The settings that a run starts from: those in its file, if it has one. -/
inductive StartsFrom : Option (Except FileError ByteArray) → Settings → Prop where
  | default : StartsFrom none {}
  | file {bytes : ByteArray} {text : String} {j : Json} {s : Settings}
      (htext : String.fromUTF8? bytes = some text) (hjson : Json.parse? text = some j)
      (hsettings : Settings.ofJson? j = some s) (hvalid : s.Valid) :
      StartsFrom (some (.ok bytes)) s

/-- Settings with the options in their place. -/
def Options.override (o : Options) (s : Settings) : Settings :=
  { s with
    frequencyMhz := o.frequencyMhz.getD s.frequencyMhz
    pipelined := s.pipelined && !o.notPipelined }

variable {o : Options} {content : Option (Except FileError ByteArray)} {s : Settings}

theorem textOf_eq_ok {content : Except FileError ByteArray} {text : String} :
    Settings.textOf content = .ok text ↔
      ∃ bytes, content = .ok bytes ∧ String.fromUTF8? bytes = some text := by
  unfold Settings.textOf
  cases content with
  | error e => exact ⟨nofun, fun ⟨_, h, _⟩ => nomatch h⟩
  | ok bytes =>
      simp only [bind, Except.bind, Except.ok.injEq, exists_eq_left']
      cases String.fromUTF8? bytes <;> simp

theorem load_eq_ok {content : Except FileError ByteArray} :
    Settings.load content = .ok s ↔ StartsFrom (some content) s := by
  constructor
  · intro h
    unfold Settings.load at h
    split at h
    · cases h
    next text htext =>
      obtain ⟨bytes, rfl, hbytes⟩ := textOf_eq_ok.mp htext
      split at h
      · cases h
      next s' hs' =>
        obtain ⟨j, hjson, hsettings⟩ := Option.bind_eq_some_iff.mp hs'
        cases hcheck : s'.check with
        | error e =>
            rw [hcheck] at h
            cases h
        | ok _ =>
            rw [hcheck] at h
            obtain rfl := Except.ok.inj h
            exact .file hbytes hjson hsettings (Settings.check_eq_ok.mp hcheck)
  · rintro (_ | ⟨htext, hjson, hsettings, hvalid⟩)
    unfold Settings.load
    rw [textOf_eq_ok.mpr ⟨_, rfl, htext⟩]
    dsimp only
    rw [hjson, Option.bind_some, hsettings]
    dsimp only
    rw [Settings.check_eq_ok.mpr hvalid]
    rfl

/-- A run has settings if there are some to start from, and they are valid in the end. -/
theorem settings_eq_ok : o.settings content = .ok s ↔
    ∃ start, StartsFrom content start ∧ s = o.override start ∧ s.Valid := by
  have hfinal : ∀ start : Settings, (do (o.override start).check; return o.override start :
      Except SettingsError Settings) = .ok s ↔ s = o.override start ∧ s.Valid := by
    intro start
    constructor
    · intro h
      cases hcheck : (o.override start).check with
      | error e =>
          rw [hcheck] at h
          cases h
      | ok _ =>
          rw [hcheck] at h
          obtain rfl := Except.ok.inj h
          exact ⟨rfl, Settings.check_eq_ok.mp hcheck⟩
    · rintro ⟨rfl, hvalid⟩
      rw [Settings.check_eq_ok.mpr hvalid]
      rfl
  cases content with
  | none =>
      refine (hfinal {}).trans ⟨fun h => ⟨{}, .default, h⟩, ?_⟩
      rintro ⟨_, ⟨⟩, h⟩
      exact h
  | some content =>
      cases hload : Settings.load content with
      | error e =>
          have hnone : o.settings (some content) = .error e := by
            unfold Options.settings
            simp only [hload]
            rfl
          rw [hnone]
          refine ⟨nofun, fun ⟨start, hstart, _⟩ => ?_⟩
          rw [load_eq_ok.mpr hstart] at hload
          cases hload
      | ok start =>
          have hsome : o.settings (some content) =
              (do (o.override start).check; return o.override start) := by
            unfold Options.settings
            simp only [hload]
            rfl
          rw [hsome, hfinal]
          refine ⟨fun h => ⟨start, load_eq_ok.mp hload, h⟩, fun ⟨start', hstart', h⟩ => ?_⟩
          obtain rfl := Except.ok.inj (hload.symm.trans (load_eq_ok.mpr hstart'))
          exact h

/-! ## Plans -/

/-- The files that show a library: those of its modules, its chart, or its manifest. -/
inductive Shows (lib : Library) : Stage → List (String × String) → Prop where
  /-- There is one file for each operator, in their order, under a name of its own. -/
  | verilog {files : List (String × String)}
      (hfiles : List.Forall₂ (fun op file => file.1 = op.name ++ ".v" ∧ op.toVerilog = .ok file.2)
        lib.emission files)
      (hnames : (files.map (·.1)).Nodup) : Shows lib .verilog files
  | timing : Shows lib .timing [("timing.mmd", lib.chart)]
  /-- There is one entry for each operator, in the same order. -/
  | manifest {entries : List Json}
      (hentries : List.Forall₂ (fun op entry => ∃ schedule text, op.schedule = some schedule ∧
          op.toVerilog = .ok text ∧
          entry = .object [("name", .string op.name), ("file", .string (op.name ++ ".v")),
            ("depth", .ofNat schedule.depth), ("registers", .ofNat schedule.registerCount),
            ("sequential", .bool schedule.sequential), ("sha256", .string (Sha256.hex text))])
        lib.emission entries) :
      Shows lib .manifest [("manifest.json", (Json.object [("manifest_schema_version", .ofNat 1),
        ("generator_version", .string version),
        ("frequency_mhz", .ofFloat lib.settings.frequencyMhz),
        ("pipelined", .bool lib.settings.pipelined), ("modules", .array entries)]).pretty)]

/-- A file of a batch has the text of its operator, and what the schedule says. -/
theorem ofOperator_of_schedule {op : Operator} {schedule : Schedule} {file : ModuleFile}
    (hschedule : op.schedule = some schedule) (hfile : ModuleFile.ofOperator op = .ok file) :
    ∃ text, op.toVerilog = .ok text ∧
      file = ⟨op.name, text, schedule.depth, schedule.registerCount, schedule.sequential⟩ := by
  unfold ModuleFile.ofOperator at hfile
  cases htext : op.toVerilog with
  | error e =>
      rw [htext] at hfile
      cases hfile
  | ok text =>
      rw [htext] at hfile
      obtain rfl := Except.ok.inj hfile
      refine ⟨text, rfl, ?_⟩
      rw [Operator.depth?, hschedule]
      rfl

/-- A lawful library has a batch, and whatever the stage, the files of the batch show it. -/
theorem shows_files {lib : Library} (hlib : lib.Lawful) (stage : Stage) :
    ∃ modules, lib.batch = .ok modules ∧ Shows lib stage (stage.files lib modules) := by
  obtain ⟨modules, hbatch, hmodules⟩ := hlib.batch
  have hfiles : List.Forall₂ (fun op file => ∃ schedule text, op.schedule = some schedule ∧
      op.toVerilog = .ok text ∧ file = ModuleFile.mk op.name text schedule.depth
        schedule.registerCount schedule.sequential) lib.emission modules := by
    refine ((List.forall₂_and_left _ _).mpr ⟨fun op hop => hop, hmodules⟩).imp ?_
    rintro op file ⟨hop, hfile⟩
    obtain ⟨schedule, hschedule, -⟩ := hlib.toModule hop
    obtain ⟨text, htext, hfile⟩ := ofOperator_of_schedule hschedule hfile
    exact ⟨schedule, text, hschedule, htext, hfile⟩
  refine ⟨modules, hbatch, ?_⟩
  cases stage with
  | verilog =>
      refine .verilog (List.forall₂_map_right_iff.mpr (hfiles.imp ?_)) ?_
      · rintro op file ⟨schedule, text, -, htext, rfl⟩
        exact ⟨rfl, htext⟩
      · rw [Stage.files, List.map_map]
        exact hlib.nodup_fileNames hmodules
  | timing => exact .timing
  | manifest =>
      refine .manifest (List.forall₂_map_right_iff.mpr (hfiles.imp ?_))
      rintro op file ⟨schedule, text, hschedule, htext, rfl⟩
      exact ⟨schedule, text, hschedule, htext, rfl⟩

section Run

variable {W : Type} {fs : FileSystem (StateM W)} {family : Family} {args : List String} {w w' : W}

/-- What a run reads. -/
def contentAt (fs : FileSystem (StateM W)) (o : Options) (w : W) :
    Option (Except FileError ByteArray) :=
  o.config.map fun path => ((fs.read path).run w).1

/-- What a run does when it has read the settings. -/
def carryOut (fs : FileSystem (StateM W)) (family : Family) (o : Options)
    (content : Option (Except FileError ByteArray)) : StateM W Report := do
  let p := plan family o content
  let events := p.events.filter o.logs
  match p.files with
  | .error (exit, notice) => return { exit, events, notices := [notice] }
  | .ok files =>
    let (notices, complete) ← writeTo fs o.output files
    return { exit := if complete then 0 else 2, events, notices := notices.filter o.shows }

/-- Reading the settings changes nothing. -/
theorem run_generate {o : Options} (hread : ∀ path w, ((fs.read path).run w).2 = w) (w : W) :
    (generate fs family o).run w = (carryOut fs family o (contentAt fs o w)).run w := by
  unfold generate contentAt
  cases o.config with
  | none => rfl
  | some path =>
      have hsame : ((fs.read path).run w) = (((fs.read path).run w).1, w) :=
        Prod.ext rfl (hread path w)
      show (some <$> fs.read path >>= carryOut fs family o).run w = _
      rw [StateT.run_bind, StateT.run_map, hsame]
      rfl

/-- A run whose plan fails leaves the files alone. -/
theorem run_generate_of_error {o : Options} (hread : ∀ path w, ((fs.read path).run w).2 = w)
    {exit : Nat} {notice : Notice}
    (hplan : (plan family o (contentAt fs o w)).files = .error (exit, notice)) :
    ((generate fs family o).run w).2 = w ∧ ((generate fs family o).run w).1.exit = exit ∧
      ((generate fs family o).run w).1.notices = [notice] := by
  rw [run_generate hread w]
  unfold carryOut
  dsimp only
  rw [hplan]
  exact ⟨rfl, rfl, rfl⟩

theorem run_generate_of_ok {o : Options} (hread : ∀ path w, ((fs.read path).run w).2 = w)
    {files : List (String × String)}
    (hplan : (plan family o (contentAt fs o w)).files = .ok files)
    (hdelivers : Delivers fs o.output files w w') :
    ((generate fs family o).run w).2 = w' ∧ ((generate fs family o).run w).1.exit = 0 ∧
      ((generate fs family o).run w).1.notices =
        if o.verbose then files.map fun file => .wrote (inDirectory o.output file.1) else [] := by
  rw [run_generate hread w]
  unfold carryOut
  dsimp only
  rw [hplan]
  dsimp only
  rw [StateT.run_bind, hdelivers.run_writeTo]
  refine ⟨rfl, rfl, ?_⟩
  show (files.map _).filter o.shows = _
  rw [List.filter_map]
  have hshown : o.shows ∘ (fun file : String × String => .wrote (inDirectory o.output file.1)) =
      fun _ => o.verbose := rfl
  rw [hshown]
  cases o.verbose <;> simp

end Run

section Plan

variable {family : Family} {o : Options} {content : Option (Except FileError ByteArray)}
  {s : Settings}

/-- A run goes on with these settings: no size is zero, and there are settings to start from that
are valid with the options in their place. -/
structure Options.Uses (o : Options) (content : Option (Except FileError ByteArray))
    (s : Settings) : Prop where
  sizes : ∀ entry ∈ sizeOptions o.sizes, entry.2 ≠ 0
  settings : ∃ start, StartsFrom content start ∧ s = o.override start ∧ s.Valid

/-- Without settings that it can use a run ends with the exit code for them. -/
theorem plan_of_unusable (hunusable : ∀ s, ¬ o.Uses content s) :
    ∃ notice, (plan family o content).files = .error (2, notice) := by
  unfold plan
  split
  next option size _ => exact ⟨.zeroSize option, rfl⟩
  next hsizes =>
    cases hsettings : o.settings content with
    | error e => exact ⟨.badSettings o.config e, rfl⟩
    | ok s =>
        refine absurd ⟨fun entry hentry hzero => ?_, settings_eq_ok.mp hsettings⟩ (hunusable s)
        exact List.find?_eq_none.mp hsizes entry hentry (decide_eq_true hzero)

theorem plan_of_uses (huses : o.Uses content s) :
    plan family o content = planWith (family.kind o.sizes) o.emit s := by
  have hsizes : (sizeOptions o.sizes).find? (·.2 = 0) = none :=
    List.find?_eq_none.mpr fun entry hentry hzero =>
      huses.sizes entry hentry (of_decide_eq_true hzero)
  unfold plan
  rw [hsizes]
  dsimp only
  rw [settings_eq_ok.mpr huses.settings]

/-- Whatever was reserved and committed on the way, a generation that fails is the end. -/
theorem files_of_failed {kind : Kind} {stage : Stage} {f : Failure}
    (hfailed : (Library.generate kind (.ofSettings s)).result = .error f) :
    (planWith kind stage s).files = .error (1, .failed f) := by
  unfold planWith
  dsimp only
  rw [hfailed]
  rfl

/-- A generation that succeeds leaves a lawful library, all of which can be written. -/
theorem files_of_generated {kind : Kind} {stage : Stage} {h : Handle}
    (hdone : (Library.generate kind (.ofSettings s)).result = .ok h) :
    ∃ files, Shows (Library.generate kind (.ofSettings s)).state stage files ∧
      (planWith kind stage s).files = .ok files := by
  have hlib : (Library.generate kind (.ofSettings s)).state.Lawful :=
    (Library.generates_kind (Library.lawful_empty s (.ofSettings s)) kind).lawful
  obtain ⟨modules, hbatch, hshows⟩ := shows_files hlib stage
  refine ⟨_, hshows, ?_⟩
  unfold planWith
  dsimp only
  rw [hdone]
  simp only [Except.bind, hbatch]

end Plan

/-- A run writes all or nothing. If a size is zero, or if the settings cannot be read or are not
valid with the options in their place, it ends with exit code 2; if the generation fails, it ends
with exit code 1 and tells of the failure. Either way no file was touched. Otherwise, where the
directory can be made and the files be written, it ends with exit code 0, and all that was done is
that the directory was made and the files were written that show the library: these are determined
by its operators, and an operator is in the order of emission once if it was committed, the one
that was asked for among them. -/
theorem run_all_or_nothing {W : Type} {fs : FileSystem (StateM W)}
    (hread : ∀ path w, ((fs.read path).run w).2 = w) {args : List String} {family : Family}
    {o : Options} (hargs : Command.ofArguments args = .generate family o) (w : W) :
    let out := (run fs args).run w
    let content := contentAt fs o w
    ((∀ s, ¬ o.Uses content s) →
      out.2 = w ∧ out.1.exit = 2 ∧ ∃ notice, out.1.notices = [notice]) ∧
    ∀ s, o.Uses content s →
      let generated := Library.generate (family.kind o.sizes) (.ofSettings s)
      let lib := generated.state
      (∀ f, generated.result = .error f →
        out.2 = w ∧ out.1.exit = 1 ∧ out.1.notices = [.failed f]) ∧
      ∀ h, generated.result = .ok h →
        (∃ op, lib.operator? h = some op ∧ op.name = (family.kind o.sizes).name) ∧
        lib.emission.Nodup ∧ (∀ op, op ∈ lib.emission ↔ ∃ h, lib.operator? h = some op) ∧
        ∃ files, Shows lib o.emit files ∧ ∀ w', Delivers fs o.output files w w' →
          out.2 = w' ∧ out.1.exit = 0 ∧ out.1.notices =
            if o.verbose then files.map fun file => .wrote (inDirectory o.output file.1) else [] := by
  intro out content
  have hout : out = (generate fs family o).run w := by
    show (run fs args).run w = _
    unfold run
    rw [hargs]
  rw [hout]
  refine ⟨fun hunusable => ?_, fun s huses => ?_⟩
  · obtain ⟨notice, hplan⟩ := @plan_of_unusable family o content hunusable
    obtain ⟨hworld, hexit, hnotices⟩ := run_generate_of_error hread hplan
    exact ⟨hworld, hexit, notice, hnotices⟩
  · intro generated lib
    have hplan : plan family o content = _ := plan_of_uses huses
    refine ⟨fun f hfailed => ?_, fun h hdone => ?_⟩
    · exact run_generate_of_error hread (hplan ▸ files_of_failed hfailed)
    · have hgenerates :=
        Library.generates_kind (Library.lawful_empty s (.ofSettings s)) (family.kind o.sizes)
      have hlib : lib.Lawful := hgenerates.lawful
      have hfree : ({ settings := s, device := .ofSettings s } : Library).find?
          (family.kind o.sizes).name = none := by
        simp [Library.find?, Library.lookup_empty]
      obtain ⟨-, op, hop, -, hname⟩ := hgenerates.built hfree hdone
      obtain ⟨files, hshows, hfiles⟩ := files_of_generated hdone
      refine ⟨⟨op, hop, hname⟩, hlib.nodup_emission, fun _ => hlib.mem_emission,
        files, hshows, fun w' hdelivers => ?_⟩
      exact run_generate_of_ok hread (hplan ▸ hfiles) hdelivers

open Library in
/-- A sum of products can be generated for the default settings. -/
theorem sum_of_products_generated :
    ∃ h, (Library.generate (Family.sumOfProducts.kind {}) (.ofSettings {})).result = .ok h := by
  have hsizes : ∀ n ∈ Family.sumOfProducts.parameters {}, 1 ≤ n := by decide
  have hsmall := (Family.length_work_le hsizes (Device.ofSettings {})).trans
    (show _ ≤ maxCycle + 1 by decide)
  obtain ⟨hgives, -⟩ := sum_gives_of_feasible {} (Device.regular_ofSettings (by decide)) rfl
    (by decide) (by decide) hsizes (Nat.sub_le_of_le_add hsmall)
  obtain ⟨_, ⟨h, _, hdone, -⟩, -⟩ := hgives ⟨⟨by decide, .inr (by decide)⟩, .inr (by decide)⟩
  exact ⟨h, hdone⟩

section Reading

variable {d d' : Draft} {arg text value : String} {args : List String}

theorem readArguments_operand (harg : Argument.ofString arg = .operand text)
    (hd : d.withOperand? text = some d') :
    readArguments d (arg :: args) = readArguments d' args := by
  rw [readArguments, harg]
  dsimp only
  rw [hd]

/-- An option by its long name takes the next argument as its value. -/
theorem readArguments_valued {name : OptionName} (harg : Argument.ofString arg = .long text none)
    (hname : OptionName.all.find? (·.long = text) = some name) (htakes : name.takesValue = true)
    (hvalue : Argument.ofString value = .operand value)
    (hd : d.withOption? name value = some d') :
    readArguments d (arg :: value :: args) = readArguments d' args := by
  rw [readArguments, harg]
  dsimp only
  rw [hname]
  dsimp only
  cases name with
  | help => cases htakes
  | version => cases htakes
  | _ =>
      rw [readArguments.readOption, if_pos htakes, hvalue, hd]
      all_goals exact OptionName.noConfusion

/-- A sum of products with one option, by its long name. -/
theorem ofArguments_sum_of_products {name : OptionName} {o : Options}
    (harg : Argument.ofString text = .long text none)
    (hname : OptionName.all.find? (·.long = text) = some name) (htakes : name.takesValue = true)
    (hvalue : Argument.ofString value = .operand value)
    (hset : Options.set? {} name value = some o) :
    Command.ofArguments ["sum-of-products", text, value] = .generate .sumOfProducts o := by
  have hfamily : Argument.ofString "sum-of-products" = .operand "sum-of-products" := by cbv
  have hof : Family.ofName? "sum-of-products" = some .sumOfProducts := by cbv
  have hoperand : ({} : Draft).withOperand? "sum-of-products" =
      some { family := some .sumOfProducts } := by
    rw [Draft.withOperand?, hof]
    rfl
  have hoption : ({ family := some .sumOfProducts } : Draft).withOption? name value =
      some ⟨some .sumOfProducts, o, [name]⟩ := by
    rw [Draft.withOption?, if_neg List.not_mem_nil, hset]
    rfl
  rw [Command.ofArguments, readArguments_operand hfamily hoperand,
    readArguments_valued harg hname htakes hvalue hoption, readArguments]
  rfl

end Reading

/-- A sum of products for the default settings is written, or its chart where there are no other
files yet, and one of words without bits is not. -/
theorem writes_sum_of_products :
    let lib := (Library.generate (Family.sumOfProducts.kind {}) (.ofSettings {})).state
    (∃ files, Shows lib .verilog files ∧ ((run journal ["sum-of-products"]).run []).2 =
        files.map fun file => (inDirectory "." file.1, file.2)) ∧
      ((run FileTree.fileSystem ["sum-of-products", "--emit", "timing"]).run {}).2 =
        ⟨[(["timing.mmd"], .file lib.chart)]⟩ ∧
      ((run journal ["sum-of-products", "--width", "0"]).run []).2 = [] := by
  intro lib
  have hread : ∀ path w, ((journal.read path).run w).2 = w := fun _ _ => rfl
  have hdefault : Settings.Valid {} := ⟨by decide, by decide, by decide⟩
  have hwritten : Command.ofArguments ["sum-of-products"] = .generate .sumOfProducts {} := by
    cbv
  have hcharted : Command.ofArguments ["sum-of-products", "--emit", "timing"] =
      .generate .sumOfProducts { emit := .timing } := by
    have hname : OptionName.all.find? (·.long = "--emit") = some .emit := by decide
    exact ofArguments_sum_of_products (by cbv) hname rfl (by cbv) (by cbv)
  have hempty : Command.ofArguments ["sum-of-products", "--width", "0"] =
      .generate .sumOfProducts { sizes := { width := 0 } } := by
    have hword : word? "0" = some 0 := by
      have hdigits : Numeral.IsDigits ['0'] :=
        ⟨List.cons_ne_nil _ _, List.forall_mem_singleton.mpr rfl⟩
      unfold word?
      exact if_pos ⟨hdigits, by decide, fun _ => rfl⟩
    have hname : OptionName.all.find? (·.long = "--width") = some .width := by decide
    apply ofArguments_sum_of_products (by cbv) hname rfl (by cbv)
    unfold Options.set?
    rw [hword]
    rfl
  obtain ⟨h, hdone⟩ := sum_of_products_generated
  refine ⟨?_, ?_, ?_⟩
  · have huses : Options.Uses {} none {} := ⟨by decide, {}, .default, rfl, hdefault⟩
    obtain ⟨-, -, -, files, hshows, hout⟩ :=
      ((run_all_or_nothing hread hwritten []).2 {} huses).2 h hdone
    exact ⟨files, hshows, (hout _ (delivers_journal "." files [])).1⟩
  · have huses : Options.Uses { emit := .timing } none {} :=
      ⟨by decide, {}, .default, rfl, hdefault⟩
    obtain ⟨-, -, -, files, hshows, hout⟩ :=
      ((run_all_or_nothing FileTree.read_fileSystem hcharted {}).2 {} huses).2 h hdone
    cases hshows
    have hname : FileTree.IsName "timing.mmd" :=
      ⟨by decide, by decide, by decide, by decide, by decide⟩
    refine (hout _ (FileTree.delivers_here ?_ ?_)).1
    · exact List.forall_mem_singleton.mpr hname
    · exact List.forall_mem_singleton.mpr List.not_mem_nil
  · refine ((run_all_or_nothing hread hempty []).1 fun s huses => ?_).1
    exact huses.sizes (.width, 0) (by decide) rfl

end CommandLine

end Retime

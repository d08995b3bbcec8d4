import Retime.Library.Chart
import Retime.Proofs.Dataflow.Plain
import Retime.Proofs.Decimal.Characters
import Retime.Proofs.Library.Batch
import Retime.Proofs.Library.Records
import Retime.Proofs.Operator.Effect
import Retime.Proofs.Text.Lines

/-! # What a chart shows

The chart of a library has one section for every committed operator, and a section has one bar
for every assignment of the schedule and for every instance. Labels and identifiers are cleaned
of the marks that separate the parts of a bar; the heading of a section shows the name of the
operator as it is. Cleaning may take two names to one, and then their bars have equal identifiers.
-/

namespace Retime

/-- A task under the identifier that it has in the chart. -/
structure Bar where
  identifier : String
  task : Task

namespace Task

/-- The marks that separate the parts of a task. -/
def marks : List Char :=
  [':', '#', ';']

/-- The identifier of a task of the operator called `owner`. -/
def identifier (owner : String) (number : Nat) : String :=
  s!"{clean owner}_{number}"

end Task

namespace Bar

/-- The line of a bar. -/
def line (b : Bar) : String :=
  s!"    {b.task.label} :{b.identifier}, {b.task.start}, {b.task.stop}"

theorem line_append (owner : String) (number : Nat) (t : Task) :
    t.line (Task.clean owner) number = Bar.line ⟨Task.identifier owner number, t⟩ ++ "\n" := by
  unfold Task.line line Task.identifier
  simp only [toString, String.append_assoc]

end Bar

namespace Operator

/-- The tasks of a finished operator. -/
def tasks (op : Operator) : List Task :=
  (op.schedule.map (·.slices.flatMap (Task.ofSlice op))).getD []

/-- The bars of a finished operator, numbered from zero on. -/
def bars (op : Operator) : List Bar :=
  op.tasks.mapIdx fun number t => ⟨Task.identifier op.name number, t⟩

/-- The heading of the section of a finished operator. -/
def heading (op : Operator) (schedule : Schedule) : String :=
  s!"    section {op.name} (depth {schedule.depth}, {schedule.registerCount} regs)"

/-- The lines of the section of a finished operator. -/
def sectionLines (op : Operator) : List String :=
  (op.schedule.map fun schedule => "" :: op.heading schedule :: op.bars.map Bar.line).getD []

/-- No name that the chart shows goes over the end of a line. -/
structure NamedInLine (op : Operator) : Prop where
  name : '\n' ∉ op.name.toList
  signal : ∀ s ∈ op.flow.netlist.signals, '\n' ∉ s.name.toList
  inst : ∀ inst ∈ op.instances, '\n' ∉ inst.name.toList ∧ '\n' ∉ inst.interface.name.toList

end Operator

/-- The lines above the sections. -/
def Library.chartHead (lib : Library) : List String :=
  ["gantt", "    title Operator schedules (" ++ Layout.message.text lib.settings.frequencyMhz
    ++ " MHz)", "    dateFormat x", "    axisFormat %Q"]

/-- All lines of a chart. -/
def Library.chartLines (lib : Library) : List String :=
  lib.chartHead ++ lib.emission.flatMap (·.sectionLines)

variable {op : Operator} {c : Char}

/-! ## Characters -/

namespace Task

theorem mem_marks : c ∈ marks ↔ c = ':' ∨ c = '#' ∨ c = ';' := by
  simp [marks]

theorem isDigit_of_mem_marks (hc : c ∈ marks) : c.isDigit = false := by
  rcases mem_marks.mp hc with rfl | rfl | rfl <;> rfl

theorem toList_clean (name : String) :
    (clean name).toList = name.toList.map fun c => if c ∈ marks then '_' else c := by
  rw [clean, String.toList_map]
  refine List.map_congr_left fun c _ => ?_
  simp only [mem_marks]

theorem notMem_clean_of_mark (hc : c ∈ marks) (name : String) : c ∉ (clean name).toList := by
  rw [toList_clean, List.mem_map]
  rintro ⟨d, -, hd⟩
  split at hd
  next => subst hd; exact absurd hc (by decide)
  next hmark => exact hmark (hd ▸ hc)

theorem notMem_clean {name : String} (hfeed : '\n' ∉ name.toList) : '\n' ∉ (clean name).toList := by
  rw [toList_clean, List.mem_map]
  rintro ⟨d, hd, heq⟩
  split at heq
  · cases heq
  · exact hfeed (heq ▸ hd)

/-- What stands before the number of a bar shows in its identifier, and so does the number. -/
theorem identifier_inj {owner owner' : String} {number number' : Nat} :
    identifier owner number = identifier owner' number' ↔
      clean owner = clean owner' ∧ number = number' := by
  refine ⟨fun h => ?_, fun ⟨howner, hnumber⟩ => by rw [identifier, howner, hnumber]; rfl⟩
  have hchars := congrArg (fun text => text.toList.reverse) h
  unfold identifier at hchars
  simp only [toString, String.toList_append, List.reverse_append, List.append_assoc,
    ↓String.reduceToList, List.reverse_cons, List.nil_append,
    List.cons_append] at hchars
  -- the number has no underscore, so the last one stands right before it
  have hdigits : ∀ k : Nat, '_' ∉ k.repr.toList.reverse := fun k hmem =>
    Dataflow.notMem_repr rfl k (List.mem_reverse.mp hmem)
  obtain ⟨hnumber, hclean⟩ := Dataflow.append_cons_inj_of_notMem_left (hdigits _) (hdigits _) hchars
  exact ⟨String.toList_inj.mp (List.reverse_inj.mp hclean),
    Nat.repr_injective (String.toList_inj.mp (List.reverse_inj.mp hnumber))⟩

end Task

/-! ## Tasks and bars -/

theorem Task.start_lt_stop_ofAssignment (op : Operator) (cycle : Nat) (a : Assignment) :
    (ofAssignment op cycle a).start < (ofAssignment op cycle a).stop :=
  Nat.lt_succ_self cycle

theorem Task.start_lt_stop_ofInstance (cycle : Nat) (inst : Instance) :
    (ofInstance cycle inst).start < (ofInstance cycle inst).stop :=
  Nat.lt_of_succ_le (Nat.le_max_right _ _)

namespace Operator

/-- A task is that of an assignment or that of an instance. -/
theorem mem_tasks {t : Task} (ht : t ∈ op.tasks) : ∃ cycle,
    (∃ a, t = .ofAssignment op cycle a) ∨ ∃ inst ∈ op.instances, t = .ofInstance cycle inst := by
  unfold tasks at ht
  cases hschedule : op.schedule with
  | none => simp [hschedule] at ht
  | some schedule =>
      rw [hschedule, Option.map_some, Option.getD_some, List.mem_flatMap] at ht
      obtain ⟨slice, -, ht⟩ := ht
      refine ⟨slice.cycle, (List.mem_append.mp ht).imp ?_ ?_⟩
      · intro ha
        obtain ⟨a, -, rfl⟩ := List.mem_map.mp ha
        exact ⟨a, rfl⟩
      · intro hi
        obtain ⟨inst, hinst, rfl⟩ := List.mem_map.mp hi
        obtain ⟨i, -, hi⟩ := List.mem_filterMap.mp hinst
        exact ⟨inst, Array.mem_of_getElem? hi, rfl⟩

theorem map_task_bars : op.bars.map (·.task) = op.tasks := by
  apply List.ext_getElem <;> simp [bars]

theorem map_identifier_bars : op.bars.map (·.identifier) =
    (List.range op.tasks.length).map (Task.identifier op.name) := by
  apply List.ext_getElem <;> simp [bars]

theorem mem_bars {b : Bar} (hb : b ∈ op.bars) :
    b.task ∈ op.tasks ∧ ∃ number, b.identifier = Task.identifier op.name number := by
  constructor
  · rw [← map_task_bars]
    exact List.mem_map_of_mem hb
  · have hid : b.identifier ∈ op.bars.map (·.identifier) := List.mem_map_of_mem hb
    rw [map_identifier_bars] at hid
    obtain ⟨number, -, heq⟩ := List.mem_map.mp hid
    exact ⟨number, heq.symm⟩

theorem start_lt_stop {b : Bar} (hb : b ∈ op.bars) : b.task.start < b.task.stop := by
  obtain ⟨cycle, ⟨a, heq⟩ | ⟨inst, -, heq⟩⟩ := mem_tasks (mem_bars hb).1
  · rw [heq]
    exact Task.start_lt_stop_ofAssignment op cycle a
  · rw [heq]
    exact Task.start_lt_stop_ofInstance cycle inst

/-- The tasks of a schedule are those of its assignments and of all instances. -/
theorem LaidOut.tasks_perm {exposed : List ExposedOutput} {depth : Nat} {schedule : Schedule}
    (hlaid : LaidOut op depth exposed schedule) (hop : op.Recorded)
    (hschedule : op.schedule = some schedule) :
    op.tasks.Perm ((schedule.dated (·.assignments)).map (fun entry =>
        Task.ofAssignment op entry.1 entry.2) ++
      op.instances.toList.map fun inst => Task.ofInstance inst.inputCycle inst) := by
  have htasks : op.tasks = schedule.slices.flatMap (Task.ofSlice op) := by
    rw [tasks, hschedule, Option.map_some, Option.getD_some]
  have hassignments : (schedule.slices.flatMap fun slice =>
      slice.assignments.map (Task.ofAssignment op slice.cycle)) =
      (schedule.dated (·.assignments)).map fun entry => Task.ofAssignment op entry.1 entry.2 := by
    rw [Schedule.dated, List.map_flatMap]
    exact List.flatMap_congr fun slice _ => by rw [List.map_map]; rfl
  -- the number of an instance leads to the instance, whose cycle is that of the slice
  have hinstances : (schedule.slices.flatMap fun slice =>
      (slice.instances.filterMap (op.instances[·]?)).map (Task.ofInstance slice.cycle)) =
      (schedule.dated (·.instances)).filterMap fun entry =>
        (op.instances[entry.2]?).map (Task.ofInstance entry.1) := by
    rw [Schedule.dated, List.filterMap_flatMap]
    exact List.flatMap_congr fun slice _ => by rw [List.map_filterMap, List.filterMap_map]; rfl
  have hall : (op.instances.toList.map fun inst => (inst.inputCycle, inst.id)).filterMap
      (fun entry => (op.instances[entry.2]?).map (Task.ofInstance entry.1)) =
      op.instances.toList.map fun inst => Task.ofInstance inst.inputCycle inst := by
    rw [List.filterMap_map, ← List.filterMap_eq_map]
    refine List.filterMap_congr fun inst hinst => ?_
    obtain ⟨i, hi⟩ := Array.mem_iff_getElem?.mp (Array.mem_toList_iff.mp hinst)
    simp only [Function.comp_apply, hop.place hi, hi, Option.map_some]
  rw [htasks]
  unfold Task.ofSlice
  refine (List.flatMap_append_perm _ _ _).symm.trans ?_
  rw [hassignments, hinstances, ← hall]
  exact (hlaid.dated_instances.filterMap _).append_left _

/-! ## Sections -/

theorem sectionLines_eq {schedule : Schedule} (hschedule : op.schedule = some schedule) :
    op.sectionLines = "" :: op.heading schedule :: op.bars.map Bar.line := by
  rw [sectionLines, hschedule, Option.map_some, Option.getD_some]

/-- The section of an operator is its lines, each with its end. -/
theorem toList_chartSection {schedule : Schedule} (hschedule : op.schedule = some schedule) :
    (op.chartSection schedule).toList = op.sectionLines.flatMap (·.toList ++ ['\n']) := by
  have htasks : schedule.slices.flatMap (Task.ofSlice op) = op.tasks := by
    rw [tasks, hschedule, Option.map_some, Option.getD_some]
  have hbars : (op.tasks.mapIdx fun number t => t.line (Task.clean op.name) number) =
      op.bars.map (·.line ++ "\n") := by
    apply List.ext_getElem
    · simp only [bars, List.length_mapIdx, List.length_map]
    · intro i _ _
      simp only [bars, List.getElem_mapIdx, List.getElem_map, Bar.line_append]
  unfold chartSection
  dsimp only
  rw [htasks, hbars, sectionLines_eq hschedule, String.toList_append, String.toList_join]
  unfold heading
  simp only [toString, List.flatMap_cons, List.flatMap_map, String.toList_append,
    ↓String.reduceToList, List.append_assoc, List.cons_append, List.nil_append]

end Operator

namespace Library

variable {lib : Library}

/-- A chart is its lines, each with its end. -/
theorem toList_chart (lib : Library) :
    lib.chart.toList = lib.chartLines.flatMap (·.toList ++ ['\n']) := by
  have hsections : (lib.emission.filterMap fun op => op.schedule.map op.chartSection).flatMap
      String.toList = (lib.emission.flatMap (·.sectionLines)).flatMap (·.toList ++ ['\n']) := by
    induction lib.emission with
    | nil => rfl
    | cons op ops ih =>
        rw [List.flatMap_cons, List.flatMap_append, ← ih]
        cases hschedule : op.schedule with
        | none => simp [Operator.sectionLines, hschedule]
        | some schedule => simp [Operator.toList_chartSection, hschedule]
  unfold chart chartLines
  dsimp only
  rw [List.flatMap_append, ← hsections, String.toList_append, String.toList_join]
  congr 1
  simp only [chartHead, List.flatMap_cons, List.flatMap_nil, String.toList_append,
    ↓String.reduceToList, List.append_assoc, List.cons_append, List.nil_append]

end Library

/-! ## Marks and line feeds -/

namespace Task

/-- Neither a mark nor a line feed is in the texts that stand around names. -/
theorem count_of_plain {text : String} (hc : c ∈ '\n' :: marks)
    (htext : text.toList.all (· ∉ '\n' :: marks) = true) : text.toList.count c = 0 := by
  refine List.count_eq_zero.mpr fun hmem => ?_
  exact of_decide_eq_true (List.all_eq_true.mp htext c hmem) hc

theorem count_toString (hc : c ∈ '\n' :: marks) (n : Nat) : (toString n).toList.count c = 0 := by
  refine List.count_eq_zero.mpr (Dataflow.notMem_repr ?_ n)
  rcases List.mem_cons.mp hc with rfl | hc
  · rfl
  · exact isDigit_of_mem_marks hc

theorem count_identifier (hc : c ∈ '\n' :: marks) (owner : String) (number : Nat) :
    (identifier owner number).toList.count c = (clean owner).toList.count c := by
  have hplain : (toString "_").toList.count c = 0 := count_of_plain hc (by decide)
  unfold identifier
  simp only [String.toList_append, List.count_append, count_toString hc, hplain]
  rfl

end Task

theorem Bar.count_line (hc : c ∈ '\n' :: Task.marks) (b : Bar) :
    b.line.toList.count c = b.task.label.toList.count c + b.identifier.toList.count c +
      if c = ':' then 1 else 0 := by
  have hmargin : (toString "    ").toList.count c = 0 := Task.count_of_plain hc (by decide)
  have hcomma : (toString ", ").toList.count c = 0 := Task.count_of_plain hc (by decide)
  have hcolon : (toString " :").toList.count c = if c = ':' then 1 else 0 := by
    rcases List.mem_cons.mp hc with rfl | hc
    · decide
    · rcases Task.mem_marks.mp hc with rfl | rfl | rfl <;> decide
  unfold line
  simp only [String.toList_append, List.count_append, Task.count_toString hc, hmargin, hcomma,
    hcolon]
  simp only [toString]
  omega

namespace Operator

theorem count_heading (hc : c ∈ '\n' :: Task.marks) (op : Operator) (schedule : Schedule) :
    (op.heading schedule).toList.count c = op.name.toList.count c := by
  have hsection : (toString "    section ").toList.count c = 0 :=
    Task.count_of_plain hc (by decide)
  have hdepth : (toString " (depth ").toList.count c = 0 := Task.count_of_plain hc (by decide)
  have hcomma : (toString ", ").toList.count c = 0 := Task.count_of_plain hc (by decide)
  have hregs : (toString " regs)").toList.count c = 0 := Task.count_of_plain hc (by decide)
  unfold heading
  simp only [String.toList_append, List.count_append, Task.count_toString hc, hsection, hdepth,
    hcomma, hregs]
  simp only [toString]
  omega

/-- What no cleaned name has, no label has. -/
theorem count_label (hc : c ∈ '\n' :: Task.marks)
    (hsignal : ∀ id, c ∉ (Task.clean (op.flow.netlist.name id)).toList)
    (hinst : ∀ inst ∈ op.instances,
      c ∉ (Task.clean inst.name).toList ∧ c ∉ (Task.clean inst.interface.name).toList)
    {t : Task} (ht : t ∈ op.tasks) : t.label.toList.count c = 0 := by
  obtain ⟨cycle, ⟨a, rfl⟩ | ⟨inst, hmem, rfl⟩⟩ := mem_tasks ht
  · exact List.count_eq_zero.mpr (hsignal a.target)
  · obtain ⟨hname, hsub⟩ := hinst inst hmem
    have hleft : " [".toList.count c = 0 := Task.count_of_plain hc (by decide)
    have hright : "]".toList.count c = 0 := Task.count_of_plain hc (by decide)
    unfold Task.ofInstance
    simp only [String.toList_append, List.count_append, List.count_eq_zero.mpr hname,
      List.count_eq_zero.mpr hsub, hleft, hright]

/-- A bar has no other marks than the colon before its identifier. -/
theorem count_mark_line (hc : c ∈ Task.marks) {b : Bar} (hb : b ∈ op.bars) :
    b.line.toList.count c = if c = ':' then 1 else 0 := by
  have hc' : c ∈ '\n' :: Task.marks := List.mem_cons_of_mem _ hc
  have hclean : ∀ name, c ∉ (Task.clean name).toList := Task.notMem_clean_of_mark hc
  obtain ⟨ht, number, hid⟩ := mem_bars hb
  rw [Bar.count_line hc', count_label hc' (fun _ => hclean _) (fun _ _ => ⟨hclean _, hclean _⟩) ht,
    hid, Task.count_identifier hc', List.count_eq_zero.mpr (hclean op.name), Nat.zero_add]

/-- In a section the marks are those of the name in the heading, and a colon for each bar. -/
theorem count_section (hc : c ∈ Task.marks) {schedule : Schedule}
    (hschedule : op.schedule = some schedule) :
    (op.sectionLines.flatMap (·.toList ++ ['\n'])).count c =
      op.name.toList.count c + if c = ':' then op.bars.length else 0 := by
  have hfeed : ['\n'].count c = 0 := by
    rcases Task.mem_marks.mp hc with rfl | rfl | rfl <;> decide
  have hbars : (op.bars.flatMap (·.line.toList ++ ['\n'])).count c =
      if c = ':' then op.bars.length else 0 := by
    have hone : op.bars.map (List.count c ∘ (·.line.toList ++ ['\n'])) =
        op.bars.map fun _ => if c = ':' then 1 else 0 := by
      refine List.map_congr_left fun b hb => ?_
      rw [Function.comp_apply, List.count_append, count_mark_line hc hb, hfeed, Nat.add_zero]
    rw [List.count_flatMap, hone]
    split <;> simp
  rw [sectionLines_eq hschedule, List.flatMap_cons, List.flatMap_cons, List.flatMap_map,
    List.count_append, List.count_append, List.count_append, List.count_append, hbars, hfeed,
    count_heading (List.mem_cons_of_mem _ hc)]
  simp

theorem NamedInLine.feed_notMem_line (hop : op.NamedInLine) {b : Bar} (hb : b ∈ op.bars) :
    '\n' ∉ b.line.toList := by
  have hc : '\n' ∈ '\n' :: Task.marks := List.mem_cons_self
  have hsignal : ∀ id, '\n' ∉ (Task.clean (op.flow.netlist.name id)).toList := by
    intro id
    apply Task.notMem_clean
    unfold Netlist.name
    cases hs : op.flow.netlist.signal? id with
    | none => exact List.not_mem_nil
    | some s => exact hop.signal s (Array.mem_of_getElem? hs)
  obtain ⟨ht, number, hid⟩ := mem_bars hb
  rw [← List.count_eq_zero, Bar.count_line hc, hid, Task.count_identifier hc,
    count_label hc hsignal (fun inst hinst =>
      (hop.inst inst hinst).imp Task.notMem_clean Task.notMem_clean) ht,
    List.count_eq_zero.mpr (Task.notMem_clean hop.name)]
  rfl

/-- All lines of a section are lines, if the names in it are. -/
theorem NamedInLine.isLine (hop : op.NamedInLine) :
    ∀ l ∈ op.sectionLines, Text.IsLine l.toList := by
  cases hschedule : op.schedule with
  | none => simp [sectionLines, hschedule]
  | some schedule =>
      have hfeed : '\n' ∈ '\n' :: Task.marks := List.mem_cons_self
      rw [sectionLines_eq hschedule, List.forall_mem_cons, List.forall_mem_cons]
      refine ⟨Text.isLine_nil, ?_, fun l hl => ?_⟩
      · have hheading : '\n' ∉ (op.heading schedule).toList := by
          rw [← List.count_eq_zero, count_heading hfeed, List.count_eq_zero]
          exact hop.name
        unfold heading at hheading ⊢
        rw [String.toList_append] at hheading ⊢
        exact .append (fun hmem => hheading (List.mem_append_left _ hmem))
          (.of_notMem (by decide) (by decide)) (by decide)
      · obtain ⟨b, hb, rfl⟩ := List.mem_map.mp hl
        have hline := hop.feed_notMem_line hb
        unfold Bar.line at hline ⊢
        rw [String.toList_append] at hline ⊢
        -- the last characters of the line are digits
        exact .append (fun hmem => hline (List.mem_append_left _ hmem))
          (.of_notMem (Dataflow.notMem_repr rfl _) (Dataflow.notMem_repr rfl _)) (by simp)

end Operator

/-! ## Charts -/

namespace Library

variable {lib : Library}

/-- Above the sections there is neither a mark nor the end of a line inside a line. -/
theorem count_chartHead (hc : c ∈ '\n' :: Task.marks) {l : String} (hl : l ∈ lib.chartHead) :
    l.toList.count c = 0 := by
  have hfrequency : (Layout.message.text lib.settings.frequencyMhz).toList.count c = 0 := by
    refine List.count_eq_zero.mpr fun hmem => ?_
    rcases Layout.mem_message hmem with hdigit | hletter
    · rcases List.mem_cons.mp hc with rfl | hc
      · cases hdigit
      · rw [Task.isDigit_of_mem_marks hc] at hdigit
        cases hdigit
    · have hplain : ['-', '.', 'N', 'a', 'i', 'n', 'f'].all (· ∉ '\n' :: Task.marks) = true := by
        decide
      exact of_decide_eq_true (List.all_eq_true.mp hplain c hletter) hc
  have htitle : "    title Operator schedules (".toList.count c = 0 :=
    Task.count_of_plain hc (by decide)
  have hunit : " MHz)".toList.count c = 0 := Task.count_of_plain hc (by decide)
  simp only [chartHead, List.mem_cons, List.not_mem_nil, or_false] at hl
  rcases hl with rfl | rfl | rfl | rfl
  · exact Task.count_of_plain hc (by decide)
  · rw [String.toList_append, String.toList_append, List.count_append, List.count_append, htitle,
      hfrequency, hunit]
  · exact Task.count_of_plain hc (by decide)
  · exact Task.count_of_plain hc (by decide)

theorem isLine_chartHead {l : String} (hl : l ∈ lib.chartHead) : Text.IsLine l.toList := by
  have hfeed : '\n' ∉ l.toList := List.count_eq_zero.mp (count_chartHead List.mem_cons_self hl)
  simp only [chartHead, List.mem_cons, List.not_mem_nil, or_false] at hl
  rcases hl with rfl | rfl | rfl | rfl
  · exact .of_notMem hfeed (by decide)
  · rw [String.toList_append] at hfeed ⊢
    exact .append (fun hmem => hfeed (List.mem_append_left _ hmem))
      (.of_notMem (by decide) (by decide)) (by decide)
  · exact .of_notMem hfeed (by decide)
  · exact .of_notMem hfeed (by decide)

/-- In a chart the marks are those of the names in the headings, and a colon for each bar. -/
theorem Lawful.count_chart (hlib : lib.Lawful) (hc : c ∈ Task.marks) :
    lib.chart.toList.count c = (lib.emission.map (·.name.toList.count c)).sum +
      if c = ':' then (lib.emission.flatMap (·.bars)).length else 0 := by
  have hfeed : ['\n'].count c = 0 := by
    rcases Task.mem_marks.mp hc with rfl | rfl | rfl <;> decide
  have hhead : (lib.chartHead.flatMap (·.toList ++ ['\n'])).count c = 0 := by
    rw [List.count_eq_zero, List.mem_flatMap]
    rintro ⟨l, hl, hmem⟩
    have hline : (l.toList ++ ['\n']).count c = 0 := by
      rw [List.count_append, count_chartHead (List.mem_cons_of_mem _ hc) hl, hfeed]
    exact List.count_eq_zero.mp hline hmem
  have hsections : lib.emission.map (List.count c ∘ fun op =>
      op.sectionLines.flatMap (·.toList ++ ['\n'])) =
      lib.emission.map fun op =>
        op.name.toList.count c + if c = ':' then op.bars.length else 0 := by
    refine List.map_congr_left fun op hop => ?_
    obtain ⟨schedule, hschedule, -⟩ := hlib.toModule hop
    exact Operator.count_section hc hschedule
  rw [toList_chart, chartLines, List.flatMap_append, List.count_append, hhead, Nat.zero_add,
    List.flatMap_assoc, List.count_flatMap, hsections, List.sum_map_add, List.length_flatMap]
  split <;> simp

/-- A chart is read line by line, if the names in it are lines. -/
theorem lines_chart (hlib : ∀ op ∈ lib.emission, op.NamedInLine) :
    Text.lines lib.chart.toList = lib.chartLines.map String.toList := by
  have hlines : lib.chart.toList = (lib.chartLines.map String.toList).flatMap (· ++ ['\n']) := by
    rw [toList_chart, List.flatMap_map]
  rw [hlines]
  refine Text.lines_flatMap fun l hl => ?_
  obtain ⟨line, hline, rfl⟩ := List.mem_map.mp hl
  rcases List.mem_append.mp hline with hhead | hsection
  · exact isLine_chartHead hhead
  · obtain ⟨op, hop, hmem⟩ := List.mem_flatMap.mp hsection
    exact (hlib op hop).isLine line hmem

/-! ## Identifiers -/

theorem nodup_identifiers (op : Operator) : (op.bars.map (·.identifier)).Nodup := by
  rw [Operator.map_identifier_bars]
  exact List.nodup_range.map fun _ _ heq => (Task.identifier_inj.mp heq).2

theorem mem_identifiers {id : String} : id ∈ op.bars.map (·.identifier) ↔
    ∃ number < op.tasks.length, Task.identifier op.name number = id := by
  simp only [Operator.map_identifier_bars, List.mem_map, List.mem_range]

theorem bars_ne_nil : op.bars ≠ [] ↔ 0 < op.tasks.length := by
  rw [← List.length_pos_iff, Operator.bars, List.length_mapIdx]

/-- Two operators have an identifier in common if their names are cleaned to the same and both
have bars. -/
theorem disjoint_identifiers {op op' : Operator} :
    List.Disjoint (op.bars.map (·.identifier)) (op'.bars.map (·.identifier)) ↔
      (op.bars ≠ [] → op'.bars ≠ [] → Task.clean op.name ≠ Task.clean op'.name) := by
  rw [bars_ne_nil, bars_ne_nil]
  constructor
  · intro hdisjoint hbars hbars' hclean
    exact hdisjoint (mem_identifiers.mpr ⟨0, hbars, rfl⟩)
      (mem_identifiers.mpr ⟨0, hbars', Task.identifier_inj.mpr ⟨hclean.symm, rfl⟩⟩)
  · intro hapart id hid hid'
    obtain ⟨number, hlt, rfl⟩ := mem_identifiers.mp hid
    obtain ⟨number', hlt', heq⟩ := mem_identifiers.mp hid'
    exact hapart (Nat.zero_lt_of_lt hlt) (Nat.zero_lt_of_lt hlt')
      (Task.identifier_inj.mp heq).1.symm

/-- The identifiers of a chart are distinct as long as cleaning keeps the names apart. -/
theorem Lawful.nodup_identifiers_iff (hlib : lib.Lawful) :
    ((lib.emission.flatMap (·.bars)).map (·.identifier)).Nodup ↔
      ∀ op ∈ lib.emission, ∀ op' ∈ lib.emission, op.bars ≠ [] → op'.bars ≠ [] →
        Task.clean op.name = Task.clean op'.name → op = op' := by
  rw [List.map_flatMap, List.nodup_flatMap]
  constructor
  · rintro ⟨-, hdisjoint⟩ op hop op' hop' hbars hbars' hclean
    by_contra hne
    have hsymm : Std.Symm (Function.onFun List.Disjoint
      fun op : Operator => op.bars.map (·.identifier)) := ⟨fun _ _ h => h.symm⟩
    exact disjoint_identifiers.mp (hdisjoint.forall hop hop' hne) hbars hbars' hclean
  · intro hapart
    refine ⟨fun op _ => nodup_identifiers op, ?_⟩
    refine hlib.nodup_emission.pairwise_of_forall_ne fun op hop op' hop' hne => ?_
    exact disjoint_identifiers.mpr fun hbars hbars' hclean =>
      hne (hapart op hop op' hop' hbars hbars' hclean)

/-! ## What is shown -/

/-- What the chart of a library shows. -/
structure Charted (lib : Library) : Prop where
  /-- There is one section for each committed operator, in the order of emission. -/
  nodup : lib.emission.Nodup
  mem_emission : ∀ op, op ∈ lib.emission ↔ ∃ h, lib.operator? h = some op
  text : lib.chart.toList =
    (lib.chartHead ++ lib.emission.flatMap (·.sectionLines)).flatMap (·.toList ++ ['\n'])
  /-- The lines are the lines of the text, as long as no name has an end of a line in it. -/
  lines : (∀ op ∈ lib.emission, op.NamedInLine) → Text.lines lib.chart.toList =
    (lib.chartHead ++ lib.emission.flatMap (·.sectionLines)).map String.toList
  /-- A section has one bar for each assignment of the schedule and one for each instance. -/
  bars : ∀ op ∈ lib.emission, ∃ schedule, op.schedule = some schedule ∧
    op.sectionLines = "" :: op.heading schedule :: op.bars.map Bar.line ∧
    (op.bars.map (·.task)).Perm ((schedule.dated (·.assignments)).map (fun entry =>
        Task.ofAssignment op entry.1 entry.2) ++
      op.instances.toList.map fun inst => Task.ofInstance inst.inputCycle inst)
  start_lt_stop : ∀ op ∈ lib.emission, ∀ b ∈ op.bars, b.task.start < b.task.stop
  /-- The marks are those of the names in the headings, and a colon for each bar. -/
  marks : ∀ mark ∈ [':', '#', ';'], lib.chart.toList.count mark =
    (lib.emission.map (·.name.toList.count mark)).sum +
      if mark = ':' then (lib.emission.flatMap (·.bars)).length else 0
  /-- The identifiers are distinct exactly if cleaning keeps apart the operators with bars. -/
  identifiers : ((lib.emission.flatMap (·.bars)).map (·.identifier)).Nodup ↔
    ∀ op ∈ lib.emission, ∀ op' ∈ lib.emission, op.bars ≠ [] → op'.bars ≠ [] →
      Task.clean op.name = Task.clean op'.name → op = op'

/-- Whatever was done to a library, as long as the operators that were committed were made by
calls, its chart shows them with all that they do, and in bars that end after they start. Of the
marks in names only those in the names of operators are left, where these head a section. Bars of
two operators have the same identifiers if the names of the operators are cleaned to the same. -/
theorem chart_shows_schedules (settings : Settings) (device : Device) (acts : List Act)
    (hacts : ∀ op, .commit op ∈ acts → op.Scripted) :
    (({ settings, device } : Library).after acts).Charted := by
  have hlib := recorded_after settings device hacts
  generalize ({ settings, device } : Library).after acts = lib at hlib
  refine ⟨hlib.nodup_emission, fun _ => hlib.mem_emission, toList_chart lib, lines_chart,
    fun op hop => ?_, fun _ _ _ => Operator.start_lt_stop, fun _ => hlib.count_chart,
    hlib.nodup_identifiers_iff⟩
  obtain ⟨schedule, hschedule, -⟩ := hlib.toModule hop
  obtain ⟨-, hrecorded⟩ := hlib.operator (hlib.handle_of_mem_emission hop)
  obtain ⟨exposed, hlaid⟩ := hrecorded.schedule hschedule
  refine ⟨schedule, hschedule, Operator.sectionLines_eq hschedule, ?_⟩
  rw [Operator.map_task_bars]
  exact hlaid.tasks_perm hrecorded hschedule

/-- An operator that shows a constant. -/
def constantOperator (handle : Handle) (name : String) : Operator :=
  (Operator.blank handle name 4 false).after
    ([.output "y" (.vector 1) "0", .finish].map (.ofSettings {}, ·))

/-- Two of them, whose names are cleaned to the same. -/
def similarActs : List Act :=
  [.create "a;b", .commit (constantOperator 0 "a;b"), .create "a_b",
    .commit (constantOperator 1 "a_b")]

open Operator in
theorem laidOut_constantOperator (handle : Handle) (name : String) :
    let op := constantOperator handle name
    ∃ exposed schedule, op.schedule = some schedule ∧ LaidOut op 0 exposed schedule ∧
      op.flow.netlist.signals.toList.filterMap
        (assignment? 0 (exposed.filterMap (·.realignment))) ≠ [] := by
  intro op
  let body : Operator :=
    { blank handle name 4 false with
      flow.netlist := ({} : Netlist).add ⟨"y", .output, .combinational, .vector 1, 0, .expr "0"⟩
      outputs := #[⟨0, 0⟩] }
  have hdirect : body.Direct := (direct_of_single rfl rfl rfl).1
  obtain ⟨schedule, hlaid, hfinish⟩ : ∃ schedule, _ ∧ body.Leads [(.ofSettings {}, .finish)] _ :=
    leads_finish rfl hdirect nofun
  have hop : op = { body with schedule := some schedule } :=
    (Leads.cons (leads_output rfl rfl (by simp [blank, Netlist.contains]) rfl) hfinish).2
  rw [hop]
  refine ⟨_, schedule, rfl, ⟨hlaid.depth_eq, hlaid.sequential_eq, hlaid.slices_eq,
    hlaid.registerCount_eq, hlaid.outputDelays_eq⟩, ?_⟩
  exact List.cons_ne_nil _ _

theorem scripted_constantOperator (handle : Handle) (name : String) :
    (constantOperator handle name).Scripted :=
  ⟨handle, name, 4, false, _, rfl⟩

theorem constantOperator_finished (handle : Handle) (name : String) :
    let op := constantOperator handle name
    op.isFinished = true ∧ op.handle = handle ∧ op.name = name ∧ op.bars ≠ [] := by
  intro op
  obtain ⟨exposed, schedule, hschedule, hlaid, hne⟩ := laidOut_constantOperator handle name
  have hrecorded : op.Recorded := ((Operator.recorded_blank handle name 4 false).after
    (Operator.sound_blank handle name 4 false) _).2
  refine ⟨by rw [Operator.isFinished, hschedule]; rfl, (Operator.identity_after _ _).1,
    (Operator.identity_after _ _).2, ?_⟩
  rw [bars_ne_nil, (hlaid.tasks_perm hrecorded hschedule).length_eq, List.length_append,
    List.length_map, hlaid.dated_assignments.length_eq]
  exact Nat.add_pos_left (List.length_pos_iff.mpr hne) _

theorem operators_of_similarActs (settings : Settings) (device : Device) :
    let lib := ({ settings, device } : Library).after similarActs
    lib.operator? 0 = some (constantOperator 0 "a;b") ∧
      lib.operator? 1 = some (constantOperator 1 "a_b") := by
  obtain ⟨hfinished, hhandle, hname, -⟩ := constantOperator_finished 0 "a;b"
  obtain ⟨hfinished', hhandle', hname', -⟩ := constantOperator_finished 1 "a_b"
  simp [similarActs, after, act, create, commit, hfinished, hhandle, hname, hfinished', hhandle',
    hname', operator?]

/-- Two operators whose names are cleaned to the same: the semicolon in one of them is in the
chart, and their bars have an identifier in common. -/
theorem chart_of_similar_names :
    let lib := ({ settings := {}, device := .ofSettings {} } : Library).after similarActs
    (∀ op, .commit op ∈ similarActs → op.Scripted) ∧ ';' ∈ lib.chart.toList ∧
      ¬ ((lib.emission.flatMap (·.bars)).map (·.identifier)).Nodup := by
  intro lib
  have hacts : ∀ op, .commit op ∈ similarActs → op.Scripted := by
    intro op hop
    simp only [similarActs, List.mem_cons, List.not_mem_nil, reduceCtorEq, Act.commit.injEq,
      false_or, or_false] at hop
    rcases hop with rfl | rfl
    · exact scripted_constantOperator 0 "a;b"
    · exact scripted_constantOperator 1 "a_b"
  have hchart := chart_shows_schedules {} (.ofSettings {}) similarActs hacts
  obtain ⟨hop, hop'⟩ := operators_of_similarActs {} (.ofSettings {})
  have hmem := (hchart.mem_emission _).mpr ⟨0, hop⟩
  have hmem' := (hchart.mem_emission _).mpr ⟨1, hop'⟩
  obtain ⟨-, hhandle, hname, hbars⟩ := constantOperator_finished 0 "a;b"
  obtain ⟨-, hhandle', hname', hbars'⟩ := constantOperator_finished 1 "a_b"
  refine ⟨hacts, ?_, fun hnodup => ?_⟩
  · have hone : 0 < (constantOperator 0 "a;b").name.toList.count ';' := by
      rw [hname]
      decide
    rw [← List.count_pos_iff, hchart.marks ';' (by decide)]
    exact Nat.lt_of_lt_of_le hone
      (Nat.le_add_right_of_le (List.le_sum_of_mem (List.mem_map_of_mem hmem)))
  · have hsame := hchart.identifiers.mp hnodup _ hmem _ hmem' hbars hbars'
      (by rw [hname, hname', ← String.toList_inj, Task.toList_clean, Task.toList_clean]; decide)
    rw [hsame] at hhandle
    exact Nat.one_ne_zero (hhandle'.symm.trans hhandle)

end Library

end Retime

import Retime.Proofs.Kind.Texts
import Retime.Proofs.Verilog.SingleDriver

/-! # Legal modules

A module is legal if everything its expressions refer to is declared in it, and if bits are only
selected of vectors that have them. Then so is the module of an operator with legal texts:
besides these texts there are only names of signals, constants, and clock and reset.
-/

namespace Retime

namespace Verilog

mutual

/-- The expressions in a statement, in all branches. -/
def Statement.expressions : Statement → List String
  | .nonblocking _ value => [value]
  | .conditional condition yes no =>
    condition :: (Statement.expressionsOf yes ++ Statement.expressionsOf no)

def Statement.expressionsOf : List Statement → List String
  | [] => []
  | s :: ss => s.expressions ++ Statement.expressionsOf ss

end

/-- The expressions in an item. -/
def Item.expressions : Item → List String
  | .assigns assignments => assignments.map (·.value)
  | .copy c => c.connections.filterMap (·.2)
  | .always _ body => Statement.expressionsOf body
  | _ => []

namespace Module

def expressions (m : Module) : List String :=
  m.leaves.flatMap (·.expressions)

/-- The expressions of the module can be read, and are legal where they stand. -/
def Legal (m : Module) : Prop :=
  ∀ text ∈ m.expressions, ∃ e, Expr.read text = some e ∧
    e.Legal fun name width => (name, width) ∈ m.widths

end Module

theorem expressionsOf_nonblockings (assignments : List (String × String)) :
    Statement.expressionsOf (nonblockings assignments) = assignments.map (·.2) := by
  induction assignments with
  | nil => rfl
  | cons a assignments ih =>
      rw [List.map_cons, ← ih]
      rfl

theorem Item.mem_expressions {item : Item} {text : String} : text ∈ item.expressions ↔
    (∃ a ∈ item.assignments, a.value = text) ∨
      (∃ c ∈ item.copies, ∃ formal, (formal, some text) ∈ c.connections) ∨
        ∃ block ∈ item.blocks, text ∈ block.expressions := by
  cases item with
  | always event body => simp [Item.assignments, Item.copies, Item.blocks]
  | _ => simp [Item.expressions, Item.assignments, Item.copies, Item.blocks]

/-- Expressions stand in assignments, in connections of copies and in blocks. -/
theorem Module.mem_expressions {m : Module} {text : String} : text ∈ m.expressions ↔
    (∃ a ∈ m.assignments, a.value = text) ∨
      (∃ c ∈ m.copies, ∃ formal, (formal, some text) ∈ c.connections) ∨
        ∃ block ∈ m.blocks, text ∈ block.expressions := by
  constructor
  · intro htext
    obtain ⟨item, hitem, htext⟩ := List.mem_flatMap.mp htext
    rcases Item.mem_expressions.mp htext with ⟨a, ha, hvalue⟩ | ⟨c, hc, hformal⟩ | ⟨block, hb, hin⟩
    · exact .inl ⟨a, List.mem_flatMap.mpr ⟨item, hitem, ha⟩, hvalue⟩
    · exact .inr (.inl ⟨c, List.mem_flatMap.mpr ⟨item, hitem, hc⟩, hformal⟩)
    · exact .inr (.inr ⟨block, List.mem_flatMap.mpr ⟨item, hitem, hb⟩, hin⟩)
  · rintro (⟨a, ha, hvalue⟩ | ⟨c, hc, hformal⟩ | ⟨block, hb, hin⟩)
    · obtain ⟨item, hitem, ha⟩ := List.mem_flatMap.mp ha
      exact List.mem_flatMap.mpr ⟨item, hitem, Item.mem_expressions.mpr (.inl ⟨a, ha, hvalue⟩)⟩
    · obtain ⟨item, hitem, hc⟩ := List.mem_flatMap.mp hc
      exact List.mem_flatMap.mpr
        ⟨item, hitem, Item.mem_expressions.mpr (.inr (.inl ⟨c, hc, hformal⟩))⟩
    · obtain ⟨item, hitem, hb⟩ := List.mem_flatMap.mp hb
      exact List.mem_flatMap.mpr
        ⟨item, hitem, Item.mem_expressions.mpr (.inr (.inr ⟨block, hb, hin⟩))⟩

/-- What is assigned in a block, and its condition. -/
theorem Item.Clocks.mem_expressions {clocking : Clocking} {resets updates : List (String × String)}
    {block : Item} (h : block.Clocks clocking resets updates) {text : String}
    (htext : text ∈ block.expressions) :
    text = "rst" ∨ text ∈ resets.map (·.2) ∨ text ∈ updates.map (·.2) := by
  cases h with
  | registered =>
      rw [Item.expressions, expressionsOf_nonblockings] at htext
      exact .inr (.inr htext)
  | _ =>
      simpa [Item.expressions, Statement.expressionsOf, Statement.expressions,
        expressionsOf_nonblockings] using htext

end Verilog

namespace Operator

open Verilog

variable {op : Operator} {schedule : Schedule} {depth : Nat} {delay : Float} {text : String}

/-- The text can be read in the module of the operator, and is legal there. -/
def ReadsLegally (op : Operator) (schedule : Schedule) (text : String) : Prop :=
  ∃ e, Expr.read text = some e ∧
    e.Legal fun name width => (name, width) ∈ (op.moduleOf schedule).widths

theorem readsLegally_zero (width : Nat) : op.ReadsLegally schedule (Expr.zero width).text :=
  ⟨.zero width, (Legible.zero width).factor.term.read_text, Expr.legal_zero width⟩

theorem readsLegally_name {name : String} {width : Nat} (hname : isName name.toList = true)
    (hwidth : (name, width) ∈ (op.moduleOf schedule).widths) : op.ReadsLegally schedule name :=
  ⟨.ident name, (Legible.ident hname).factor.term.read_text, Expr.legal_ident hwidth⟩

/-- Clock and reset can be referred to if they are ports. -/
theorem readsLegally_control {name : String} (hsequential : schedule.sequential = true)
    (hname : name ∈ controlPorts) : op.ReadsLegally schedule name := by
  have hlegible : isName name.toList = true := by
    simp only [controlPorts, List.mem_cons, List.not_mem_nil, or_false] at hname
    rcases hname with rfl | rfl <;> decide
  have hport : (name, 1) ∈ (op.moduleOf schedule).widths := by
    refine List.mem_append_left _ (List.mem_map.mpr ⟨⟨.input, 1, name⟩, ?_, rfl⟩)
    refine List.mem_append_left _ (List.mem_append_left _ ?_)
    rw [if_pos hsequential]
    exact List.mem_map_of_mem hname
  exact readsLegally_name hlegible hport

section LegalTexts

variable (h : op.LegalTexts)
include h

theorem LegalTexts.signal {id : SignalId} {s : Signal}
    (hs : op.flow.netlist.signal? id = some s) : op.ReadsLegally schedule (op.signalName id) := by
  obtain rfl := h.consistent.flow.lawful.id_eq hs
  rw [show op.signalName s.id = s.name from Netlist.name_of_signal hs]
  exact readsLegally_name (h.readable.of_mem h.consistent.flow hs) (h.consistent.mem_widths hs)

theorem LegalTexts.driver {s : Signal} (hs : op.flow.netlist.signal? s.id = some s)
    (hdriver : s.driver = .expr text) : op.ReadsLegally schedule text := by
  obtain ⟨e, he, hlegal⟩ := h.legal hs hdriver
  refine ⟨e, he, hlegal.mono ?_⟩
  rintro name width ⟨t, ht, rfl, -⟩
  obtain ⟨hmem, rfl⟩ := h.consistent.flow.lawful.find_ok.mp ht
  exact h.consistent.mem_widths hmem

variable (hlaid : LaidOut op depth [⟨delay, none⟩] schedule)
include hlaid

/-- What is assigned is the text of a signal. -/
theorem LegalTexts.assignment {a : Assign} (ha : a ∈ (op.moduleOf schedule).assignments) :
    op.ReadsLegally schedule a.value := by
  rw [assignments_moduleOf] at ha
  obtain ⟨assigned, hmem, rfl⟩ := List.mem_map.mp ha
  obtain ⟨⟨cycle, a⟩, hentry, rfl⟩ := List.mem_map.mp (hlaid.assignments_perm.mem_iff.mp hmem)
  obtain ⟨s, hs, hassigned⟩ := List.mem_filterMap.mp hentry
  have hs' := h.consistent.flow.lawful.mem_signals.mp hs
  obtain ⟨text, hdriver, hvalue⟩ : ∃ text, s.driver = .expr text ∧ a.value = .expr text := by
    unfold assignment? at hassigned
    split at hassigned
    next text hrole hdriver =>
      cases hassigned
      exact ⟨text, hdriver, rfl⟩
    next text hrole hdriver =>
      cases hassigned
      exact ⟨text, hdriver, rfl⟩
    · cases hassigned
  simpa [assign, hvalue] using h.driver hs' hdriver

/-- Ports are connected to signals, and to clock and reset. -/
theorem LegalTexts.connection {c : Copy} (hc : c ∈ (op.moduleOf schedule).copies) {formal : String}
    (htext : (formal, some text) ∈ c.connections) : op.ReadsLegally schedule text := by
  have hplaces : ∀ {i : Nat} {inst}, op.instances[i]? = some inst → inst.id = i :=
    fun hinst => (h.consistent.fits hinst).id_eq
  obtain ⟨inst, hinst, rfl⟩ := List.mem_map.mp ((hlaid.copies_perm hplaces).mem_iff.mp hc)
  have hmem : inst ∈ op.instances := Array.mem_toList_iff.mp hinst
  obtain ⟨i, hi⟩ := Array.mem_iff_getElem?.mp hmem
  have hfits := h.consistent.fits hi
  simp only [copy, List.mem_append] at htext
  rcases htext with (hcontrol | hinput) | houtput
  · split at hcontrol
    next hsequential =>
      obtain ⟨name, hname, hsame⟩ := List.mem_map.mp hcontrol
      obtain ⟨rfl, rfl⟩ : name = formal ∧ name = text := by simpa using hsame
      refine readsLegally_control (hlaid.sequential_eq.mpr (.inr (.inr ?_))) hname
      exact Array.any_eq_true'.mpr ⟨inst, hmem, hsequential⟩
    · cases hcontrol
  · obtain ⟨⟨formal', actual⟩, hentry, hsame⟩ := List.mem_map.mp hinput
    obtain ⟨id, rfl⟩ := h.wired inst hmem _ hentry
    obtain ⟨-, rfl⟩ : formal' = formal ∧ op.signalName id = text := by simpa using hsame
    obtain ⟨s, hs, -⟩ := hfits.input hentry
    exact h.signal hs
  · obtain ⟨⟨formal', signal⟩, hentry, hsame⟩ := List.mem_map.mp houtput
    obtain ⟨-, id, rfl, rfl⟩ : formal' = formal ∧ ∃ id, signal = some id ∧ op.signalName id = text := by
      simpa using hsame
    obtain ⟨s, hs, -⟩ := hfits.output hentry
    exact h.signal hs

/-- Registers take over signals, and are reset to zero. -/
theorem LegalTexts.block {block : Item} (hblock : block ∈ (op.moduleOf schedule).blocks)
    (htext : text ∈ block.expressions) : op.ReadsLegally schedule text := by
  have hcount := (blocks_ne_nil hlaid h.consistent.flow).mp (List.ne_nil_of_mem hblock)
  obtain ⟨clocking, own, hown, hclocks⟩ := hlaid.loads_of_block h.consistent.flow hblock
  rcases hclocks.mem_expressions htext with rfl | hreset | hupdate
  · exact readsLegally_control (hlaid.sequential_eq.mpr (.inl hcount)) (by simp [controlPorts])
  · obtain ⟨assigned, hmem, rfl⟩ := List.mem_map.mp hreset
    unfold resets at hmem
    split at hmem
    · cases hmem
    · obtain ⟨l, -, rfl⟩ := List.mem_map.mp hmem
      exact readsLegally_zero _
  · obtain ⟨assigned, hmem, rfl⟩ := List.mem_map.mp hupdate
    obtain ⟨l, hl, rfl⟩ := List.mem_map.mp hmem
    obtain ⟨s, source, -, -, hsource, rfl⟩ := hlaid.stage_of_load h.consistent.flow (hown hl)
    exact h.signal hsource

theorem LegalTexts.moduleOf_legal : (op.moduleOf schedule).Legal := by
  intro text htext
  rcases Module.mem_expressions.mp htext with ⟨a, ha, rfl⟩ | ⟨c, hc, formal, hformal⟩ |
    ⟨block, hblock, htext⟩
  · exact h.assignment hlaid ha
  · exact h.connection hlaid hc hformal
  · exact h.block hlaid hblock htext

end LegalTexts

/-! ## Texts in legal modules -/

section Consistent

variable (hop : op.Consistent) (hlaid : LaidOut op depth [⟨delay, none⟩] schedule)
include hop hlaid

end Consistent

end Operator

end Retime

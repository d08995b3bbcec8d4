import Retime.Proofs.Text.Lines
import Retime.Proofs.Verilog.Reading
import Retime.Proofs.Verilog.Structure

/-! # The lines of modules

The items of a module are written in parts: its nets, what happens in a cycle, and a block of
registers. As long as names are words and expressions stand in one line each, the text of the
module is the lines of its header and its parts.
-/

namespace Retime.Verilog

open Text

/-! ## Words -/

/-- A letter, a digit or the underscore; beyond ASCII every character is taken for a letter. -/
def isLetter (c : Char) : Bool :=
  isNameChar c || 128 ≤ c.toNat

structure IsWord (s : String) : Prop where
  nonempty : s ≠ ""
  letters : ∀ c ∈ s.toList, isLetter c = true

/-- A text that fills a line or a part of it. -/
structure OneLine (s : String) : Prop where
  nonempty : s ≠ ""
  feed : '\n' ∉ s.toList

variable {s : String}

theorem isWord_iff : IsWord s ↔ s ≠ "" ∧ s.toList.all isLetter = true :=
  ⟨fun h => ⟨h.nonempty, List.all_eq_true.mpr h.letters⟩, fun h => ⟨h.1, List.all_eq_true.mp h.2⟩⟩

instance (s : String) : Decidable (IsWord s) :=
  decidable_of_iff' _ isWord_iff

theorem IsWord.notMem (h : IsWord s) {c : Char} (hc : isLetter c = false) : c ∉ s.toList := by
  intro hmem
  rw [h.letters c hmem] at hc
  cases hc

theorem IsWord.oneLine (h : IsWord s) : OneLine s where
  nonempty := h.nonempty
  feed := h.notMem rfl

theorem IsWord.toList_ne_nil (h : IsWord s) : s.toList ≠ [] :=
  mt String.toList_eq_nil_iff.mp h.nonempty

theorem IsWord.isLine (h : IsWord s) : IsLine s.toList :=
  .of_notMem (h.notMem rfl) (h.notMem rfl)

/-! ## Declarations and assignments -/

structure PortDeclaration.Clear (p : PortDeclaration) : Prop where
  name : IsWord p.name
  width : 0 < p.width

structure NetDeclaration.Clear (n : NetDeclaration) : Prop where
  name : IsWord n.name
  width : 0 < n.width

structure Assign.Clear (a : Assign) : Prop where
  target : IsWord a.target
  value : OneLine a.value

theorem toList_rangeText (width : Nat) : (rangeText width).toList =
    if 1 < width then '[' :: ((width - 1).repr.toList ++ [':', '0', ']', ' ']) else [] := by
  unfold rangeText
  split
  · simp only [toString, String.toList_append, ↓String.reduceToList, List.cons_append,
      List.nil_append]
  · rfl

theorem PortDeclaration.toList_text (p : PortDeclaration) : p.text.toList =
    p.direction.text.toList ++ " wire ".toList ++ (rangeText p.width).toList ++ p.name.toList := by
  unfold PortDeclaration.text
  simp only [String.toList_append]

theorem NetDeclaration.toList_text (n : NetDeclaration) : n.text.toList =
    n.kind.text.toList ++ ' ' :: ((rangeText n.width).toList ++ n.name.toList ++ [';']) := by
  unfold NetDeclaration.text
  simp only [String.toList_append, ↓String.reduceToList, List.append_assoc, List.cons_append,
    List.nil_append]

theorem Assign.toList_text (a : Assign) : a.text.toList =
    "assign ".toList ++ (a.target.toList ++ ' ' :: '=' :: ' ' :: (a.value.toList ++ [';'])) := by
  unfold Assign.text
  simp only [toString, String.toList_append, ↓String.reduceToList, List.append_assoc,
    List.cons_append, List.nil_append]

theorem feed_notMem_rangeText (width : Nat) : '\n' ∉ (rangeText width).toList := by
  have hdigits : '\n' ∉ (width - 1).repr.toList := Dataflow.notMem_repr rfl _
  rw [toList_rangeText]
  split
  · simp only [List.mem_cons, List.mem_append, hdigits, Char.reduceEq, List.not_mem_nil, or_self,
      not_false_eq_true]
  · exact List.not_mem_nil

theorem PortDeclaration.Clear.isLine {p : PortDeclaration} (h : p.Clear) :
    IsLine p.text.toList := by
  rw [p.toList_text]
  refine h.name.isLine.append ?_ h.name.toList_ne_nil
  have hdirection : '\n' ∉ p.direction.text.toList := by cases p.direction <;> decide
  have hwire : '\n' ∉ " wire ".toList := by decide
  simp only [List.mem_append, hdirection, hwire, feed_notMem_rangeText, or_self,
    not_false_eq_true]

theorem NetDeclaration.Clear.isLine {n : NetDeclaration} (h : n.Clear) :
    IsLine n.text.toList := by
  rw [n.toList_text, ← List.cons_append, ← List.append_assoc]
  refine isLine_concat ?_ (by decide) (by decide)
  have hkind : '\n' ∉ n.kind.text.toList := by cases n.kind <;> decide
  simp only [List.mem_append, List.mem_cons, hkind, feed_notMem_rangeText, h.name.oneLine.feed,
    Char.reduceEq, or_self, not_false_eq_true]

theorem Assign.Clear.isLine {a : Assign} (h : a.Clear) : IsLine a.text.toList := by
  rw [a.toList_text, ← List.cons_append, ← List.cons_append, ← List.cons_append,
    ← List.append_assoc, ← List.append_assoc]
  refine isLine_concat ?_ (by decide) (by decide)
  have hassign : '\n' ∉ "assign ".toList := by decide
  simp only [List.mem_append, List.mem_cons, hassign, h.target.oneLine.feed, h.value.feed,
    Char.reduceEq, or_self, not_false_eq_true]

/-! ## Copies -/

/-- A port by its name, and what it is connected to, unless it is left open. -/
structure ClearConnection (e : String × Option String) : Prop where
  formal : IsWord e.1
  actual : ∀ v ∈ e.2, OneLine v

structure Copy.Clear (c : Copy) : Prop where
  moduleName : IsWord c.moduleName
  name : IsWord c.name
  connection : ∀ e ∈ c.connections, ClearConnection e

/-- The line of a connection. -/
def connectionLine (e : String × Option String) : List Char :=
  (connectionText e.1 e.2).toList

def Copy.lines (c : Copy) : List (List Char) :=
  (c.moduleName.toList ++ ' ' :: (c.name.toList ++ [' ', '('])) ::
    (commaLines (c.connections.map connectionLine) ++ [[')', ';']])

theorem connectionLine_eq (e : String × Option String) : connectionLine e =
    "    .".toList ++ (e.1.toList ++ '(' :: ((e.2.getD "").toList ++ [')'])) := by
  unfold connectionLine connectionText
  simp only [toString, String.toList_append, ↓String.reduceToList, List.append_assoc,
    List.cons_append, List.nil_append]

theorem Copy.hasLines (c : Copy) : HasLines c.text c.lines := by
  have htext : c.text = c.moduleName ++ " " ++ c.name ++ " (" ++ "\n"
      ++ (",\n".intercalate (c.connections.map fun e => connectionText e.1 e.2) ++ "\n" ++ ");") := by
    apply String.toList_inj.mp
    unfold Copy.text
    simp only [toString, String.toList_append, ↓String.reduceToList, List.append_assoc,
      List.cons_append, List.nil_append]
  have hconnections := hasLines_commas (c.connections.map fun e => connectionText e.1 e.2)
  rw [List.map_map] at hconnections
  have hheader := hasLines_line (c.moduleName ++ " " ++ c.name ++ " (")
  simp only [String.toList_append, ↓String.reduceToList, List.append_assoc, List.cons_append,
    List.nil_append] at hheader
  rw [htext]
  exact hheader.append (hconnections.append (hasLines_line ");"))

theorem Copy.Clear.isLine {c : Copy} (h : c.Clear) : ∀ l ∈ c.lines, IsLine l := by
  have hconnection : ∀ l ∈ c.connections.map connectionLine, IsLine l := by
    intro l hl
    obtain ⟨e, he, rfl⟩ := List.mem_map.mp hl
    rw [connectionLine_eq, ← List.cons_append, ← List.append_assoc, ← List.append_assoc]
    refine isLine_concat ?_ (by decide) (by decide)
    have hdot : '\n' ∉ "    .".toList := by decide
    have hactual : '\n' ∉ (e.2.getD "").toList := by
      cases hv : e.2 with
      | none => decide
      | some v => exact ((h.connection e he).actual v hv).feed
    simp only [List.mem_append, List.mem_cons, hdot, (h.connection e he).formal.oneLine.feed,
      hactual, Char.reduceEq, or_self, not_false_eq_true]
  have hheader : IsLine (c.moduleName.toList ++ ' ' :: (c.name.toList ++ [' ', '('])) := by
    refine (IsLine.of_notMem ?_ ?_).append (l := ' ' :: (c.name.toList ++ [' ', '(']))
      h.moduleName.oneLine.feed (List.cons_ne_nil _ _)
    · simp [h.name.oneLine.feed]
    · simp [h.name.notMem (c := '\r') rfl]
  intro l hl
  rcases List.mem_cons.mp hl with rfl | hrest
  · exact hheader
  · rcases List.mem_append.mp hrest with hcomma | hend
    · exact isLine_commaLines hconnection l hcomma
    · rw [List.mem_singleton.mp hend]
      exact .of_notMem (by decide) (by decide)

/-! ## Blocks -/

/-- A target and what is assigned to it. -/
structure ClearUpdate (u : String × String) : Prop where
  target : IsWord u.1
  value : OneLine u.2

def updateLine (u : String × String) : List Char :=
  u.1.toList ++ ' ' :: '<' :: '=' :: ' ' :: (u.2.toList ++ [';'])

/-- Lines inside a block or a branch. -/
def insetLines (ls : List (List Char)) : List (List Char) :=
  ls.map (List.replicate 4 ' ' ++ ·)

/-- What a block of registers executes; where there is a reset, it comes first. -/
def clocked (resets updates : List (String × String)) : List Statement :=
  if resets.isEmpty then nonblockings updates
  else [.conditional "rst" (nonblockings resets) (nonblockings updates)]

def clockedLines (resets updates : List (String × String)) : List (List Char) :=
  if resets.isEmpty then updates.map updateLine
  else "if (rst) begin".toList :: (insetLines (resets.map updateLine) ++ "end else begin".toList ::
    (insetLines (updates.map updateLine) ++ ["end".toList]))

theorem toList_nonblocking (u : String × String) :
    (Statement.nonblocking u.1 u.2).text.toList = updateLine u := by
  show (toString u.1 ++ " <= " ++ toString u.2 ++ ";").toList = _
  simp only [toString, String.toList_append, ↓String.reduceToList, List.append_assoc,
    List.cons_append, List.nil_append, updateLine]

theorem texts_nonblockings (updates : List (String × String)) :
    Statement.texts (nonblockings updates) =
      updates.map fun u => (Statement.nonblocking u.1 u.2).text := by
  induction updates with
  | nil => rfl
  | cons u updates ih =>
      rw [List.map_cons, ← ih]
      rfl

theorem ClearUpdate.isLine {u : String × String} (h : ClearUpdate u) :
    IsLine (updateLine u) ∧ updateLine u ≠ [] := by
  constructor
  · unfold updateLine
    rw [← List.cons_append, ← List.cons_append, ← List.cons_append, ← List.cons_append,
      ← List.append_assoc]
    refine isLine_concat ?_ (by decide) (by decide)
    simp only [List.mem_append, List.mem_cons, h.target.oneLine.feed, h.value.feed,
      Char.reduceEq, or_self, not_false_eq_true]
  · exact List.append_ne_nil_of_right_ne_nil _ (List.cons_ne_nil _ _)

theorem isLine_insetLines {ls : List (List Char)} (hls : ∀ l ∈ ls, IsLine l ∧ l ≠ []) :
    ∀ l ∈ insetLines ls, IsLine l ∧ l ≠ [] := by
  intro l hl
  obtain ⟨l', hl', rfl⟩ := List.mem_map.mp hl
  exact ⟨(hls l' hl').1.append (by decide) (hls l' hl').2,
    List.append_ne_nil_of_right_ne_nil _ (hls l' hl').2⟩

theorem hasLines_inset {ts : List String} {ls : List (List Char)}
    (h : HasLines ("\n".intercalate ts) ls) (hls : ∀ l ∈ ls, IsLine l ∧ l ≠ []) :
    HasLines (inset ts) (insetLines ls) :=
  h.indent 4 hls

section Clocked

variable {resets updates : List (String × String)}

theorem hasLines_nonblockings (hne : updates ≠ []) :
    HasLines ("\n".intercalate (Statement.texts (nonblockings updates)))
      (updates.map updateLine) := by
  rw [texts_nonblockings, List.map_eq_flatMap (f := updateLine)]
  refine hasLines_intercalate hne fun u _ => ?_
  rw [← toList_nonblocking]
  exact hasLines_line _

theorem isLine_updateLines (h : ∀ u ∈ updates, ClearUpdate u) :
    ∀ l ∈ updates.map updateLine, IsLine l ∧ l ≠ [] := by
  intro l hl
  obtain ⟨u, hu, rfl⟩ := List.mem_map.mp hl
  exact (h u hu).isLine

theorem isLine_clockedLines (hresets : ∀ u ∈ resets, ClearUpdate u)
    (hupdates : ∀ u ∈ updates, ClearUpdate u) :
    ∀ l ∈ clockedLines resets updates, IsLine l ∧ l ≠ [] := by
  unfold clockedLines
  split
  · exact isLine_updateLines hupdates
  · intro l hl
    rcases List.mem_cons.mp hl with rfl | hl
    · exact ⟨.of_notMem (by decide) (by decide), by decide⟩
    rcases List.mem_append.mp hl with hl | hl
    · exact isLine_insetLines (isLine_updateLines hresets) l hl
    rcases List.mem_cons.mp hl with rfl | hl
    · exact ⟨.of_notMem (by decide) (by decide), by decide⟩
    rcases List.mem_append.mp hl with hl | hl
    · exact isLine_insetLines (isLine_updateLines hupdates) l hl
    · rw [List.mem_singleton.mp hl]
      exact ⟨.of_notMem (by decide) (by decide), by decide⟩

theorem hasLines_clocked (hne : updates ≠ []) (hresets : ∀ u ∈ resets, ClearUpdate u)
    (hupdates : ∀ u ∈ updates, ClearUpdate u) :
    HasLines ("\n".intercalate (Statement.texts (clocked resets updates)))
      (clockedLines resets updates) := by
  unfold clocked clockedLines
  split
  · exact hasLines_nonblockings hne
  next hguarded =>
    have hne' : resets ≠ [] := mt List.isEmpty_iff.mpr hguarded
    have hreset := hasLines_inset (hasLines_nonblockings hne') (isLine_updateLines hresets)
    have hupdate := hasLines_inset (hasLines_nonblockings hne) (isLine_updateLines hupdates)
    have hno : (Statement.texts (nonblockings updates)).isEmpty = false := by
      rw [texts_nonblockings, List.isEmpty_map, List.isEmpty_eq_false_iff]
      exact hne
    have htext : "\n".intercalate (Statement.texts
        [.conditional "rst" (nonblockings resets) (nonblockings updates)]) =
        "if (rst) begin" ++ "\n" ++ (inset (Statement.texts (nonblockings resets)) ++ "\n" ++
          ("end else begin" ++ "\n" ++
            (inset (Statement.texts (nonblockings updates)) ++ "\n" ++ "end"))) := by
      apply String.toList_inj.mp
      show (conditionalText "rst" _ _).toList = _
      unfold conditionalText
      rw [hno]
      simp only [toString, String.toList_append, ↓String.reduceToList, List.append_assoc,
        List.cons_append, List.nil_append, Bool.false_eq_true, if_false]
    rw [htext]
    exact (hasLines_line "if (rst) begin").append <| hreset.append <|
      (hasLines_line "end else begin").append <| hupdate.append (hasLines_line "end")

end Clocked

/-! ## Parts -/

/-- An item of a module as operators have them. -/
inductive Part where
  | nets (declarations : List NetDeclaration)
  /-- What happens in a cycle, below a comment with its number. -/
  | cycle (number : Nat) (assigns : List Assign) (copies : List Copy)
  /-- A block of registers, without resets if they have none. -/
  | block (event : String) (resets updates : List (String × String))

namespace Part

/-- The items of a cycle. -/
def cycleItems (assigns : List Assign) (copies : List Copy) : List Item :=
  (if assigns.isEmpty then [] else [Item.assigns assigns]) ++ copies.map Item.copy

def item : Part → Item
  | nets declarations => .nets declarations
  | cycle number assigns copies => .commented s!"cycle {number}" (cycleItems assigns copies)
  | block event resets updates => .always event (clocked resets updates)

def lines : Part → List (List Char)
  | nets declarations => declarations.map (·.text.toList)
  | cycle number assigns copies => ("// cycle ".toList ++ number.repr.toList) ::
      (assigns.map (·.text.toList) ++ copies.flatMap Copy.lines)
  | block event resets updates => (event.toList ++ " begin".toList) ::
      (insetLines (clockedLines resets updates) ++ ["end".toList])

/-- The parts are not empty, and what they consist of can be told apart. -/
inductive Clear : Part → Prop where
  | nets {declarations : List NetDeclaration} (nonempty : declarations ≠ [])
      (declaration : ∀ n ∈ declarations, n.Clear) : Clear (nets declarations)
  | cycle (number : Nat) {assigns : List Assign} {copies : List Copy}
      (nonempty : assigns ≠ [] ∨ copies ≠ []) (assign : ∀ a ∈ assigns, a.Clear)
      (copy : ∀ c ∈ copies, c.Clear) : Clear (cycle number assigns copies)
  | block {event : String} {resets updates : List (String × String)}
      (edge : event ∈ ["always @(posedge clk)", "always @(posedge clk or posedge rst)"])
      (nonempty : updates ≠ []) (reset : ∀ u ∈ resets, ClearUpdate u)
      (update : ∀ u ∈ updates, ClearUpdate u) : Clear (block event resets updates)

theorem text_nets (declarations : List NetDeclaration) :
    (Item.nets declarations).text = "\n".intercalate (declarations.map (·.text)) :=
  rfl

theorem text_assigns (assigns : List Assign) :
    (Item.assigns assigns).text = "\n".intercalate (assigns.map (·.text)) :=
  rfl

theorem text_commented (comment : String) (items : List Item) :
    (Item.commented comment items).text =
      "// " ++ comment ++ "\n" ++ "\n".intercalate (Item.texts items) :=
  rfl

theorem text_always (event : String) (body : List Statement) :
    (Item.always event body).text =
      event ++ " begin\n" ++ inset (Statement.texts body) ++ "\nend" :=
  rfl

theorem texts_eq (items : List Item) : Item.texts items = items.map (·.text) := by
  induction items with
  | nil => rfl
  | cons item items ih =>
      rw [List.map_cons, ← ih]
      rfl

theorem hasLines_assigns {assigns : List Assign} (hne : assigns ≠ []) :
    HasLines (Item.assigns assigns).text (assigns.map (·.text.toList)) := by
  rw [text_assigns, List.map_eq_flatMap (f := fun a : Assign => a.text.toList)]
  exact hasLines_intercalate hne fun a _ => hasLines_line a.text

theorem hasLines_cycleItems {assigns : List Assign} {copies : List Copy}
    (hne : assigns ≠ [] ∨ copies ≠ []) :
    HasLines ("\n".intercalate (Item.texts (cycleItems assigns copies)))
      (assigns.map (·.text.toList) ++ copies.flatMap Copy.lines) := by
  have hcopies : copies ≠ [] → HasLines ("\n".intercalate (copies.map (·.text)))
      (copies.flatMap Copy.lines) :=
    fun hne => hasLines_intercalate hne fun c _ => c.hasLines
  have htexts : (copies.map Item.copy).map (·.text) = copies.map (·.text) := by
    rw [List.map_map]
    rfl
  unfold cycleItems
  rw [texts_eq, List.map_append, htexts]
  split
  next hempty =>
    obtain rfl := List.isEmpty_iff.mp hempty
    exact hcopies (hne.resolve_left (not_not_intro rfl))
  next hassigns =>
    have hfirst := hasLines_assigns (mt List.isEmpty_iff.mpr hassigns)
    cases copies with
    | nil =>
        rw [List.map_nil, List.append_nil, List.map_singleton, String.intercalate_singleton,
          List.flatMap_nil, List.append_nil]
        exact hfirst
    | cons c copies =>
        rw [List.map_singleton, List.singleton_append, List.map_cons,
          String.intercalate_cons_cons]
        exact hfirst.append (hcopies (List.cons_ne_nil c copies))

variable {p : Part}

theorem Clear.hasLines (h : p.Clear) : HasLines p.item.text p.lines := by
  unfold item lines
  cases h with
  | @nets declarations nonempty declaration =>
      dsimp only
      rw [text_nets, List.map_eq_flatMap (f := fun n : NetDeclaration => n.text.toList)]
      exact hasLines_intercalate nonempty fun n _ => hasLines_line n.text
  | @cycle number assigns copies nonempty assign copy =>
      have hheader := hasLines_line ("// cycle " ++ number.repr)
      rw [String.toList_append] at hheader
      have htext : (Item.commented s!"cycle {number}" (cycleItems assigns copies)).text =
          "// cycle " ++ number.repr ++ "\n" ++
            "\n".intercalate (Item.texts (cycleItems assigns copies)) := by
        apply String.toList_inj.mp
        rw [text_commented]
        simp only [toString, String.toList_append, ↓String.reduceToList, List.append_assoc,
          List.cons_append, List.nil_append]
      dsimp only
      rw [htext]
      exact hheader.append (hasLines_cycleItems nonempty)
  | @block event resets updates edge nonempty reset update =>
      have hheader := hasLines_line (event ++ " begin")
      rw [String.toList_append] at hheader
      have hbody := hasLines_inset (hasLines_clocked nonempty reset update)
        (isLine_clockedLines reset update)
      have htext : (Item.always event (clocked resets updates)).text =
          event ++ " begin" ++ "\n" ++
            (inset (Statement.texts (clocked resets updates)) ++ "\n" ++ "end") := by
        apply String.toList_inj.mp
        rw [text_always]
        simp only [String.toList_append, ↓String.reduceToList, List.append_assoc,
          List.cons_append, List.nil_append]
      dsimp only
      rw [htext]
      exact hheader.append (hbody.append (hasLines_line "end"))

theorem Clear.isLine (h : p.Clear) : ∀ l ∈ p.lines, IsLine l := by
  cases h with
  | nets nonempty declaration =>
      intro l hl
      obtain ⟨n, hn, rfl⟩ := List.mem_map.mp hl
      exact (declaration n hn).isLine
  | cycle number nonempty assign copy =>
      intro l hl
      rcases List.mem_cons.mp hl with rfl | hl
      · have hdigits : ∀ c, c.isDigit = false → c ∉ "// cycle ".toList →
            c ∉ "// cycle ".toList ++ number.repr.toList := fun c hc hcycle hmem =>
          (List.mem_append.mp hmem).elim hcycle (Dataflow.notMem_repr hc number)
        exact .of_notMem (hdigits _ rfl (by decide)) (hdigits _ rfl (by decide))
      rcases List.mem_append.mp hl with hl | hl
      · obtain ⟨a, ha, rfl⟩ := List.mem_map.mp hl
        exact (assign a ha).isLine
      · obtain ⟨c, hc, hl⟩ := List.mem_flatMap.mp hl
        exact (copy c hc).isLine l hl
  | block edge nonempty reset update =>
      intro l hl
      rcases List.mem_cons.mp hl with rfl | hl
      · simp only [List.mem_cons, List.not_mem_nil, or_false] at edge
        rcases edge with rfl | rfl <;> exact .of_notMem (by decide) (by decide)
      rcases List.mem_append.mp hl with hl | hl
      · exact (isLine_insetLines (isLine_clockedLines reset update) l hl).1
      · rw [List.mem_singleton.mp hl]
        exact .of_notMem (by decide) (by decide)

theorem exists_parts {items : List Item} (h : ∀ item ∈ items, ∃ p : Part, p.Clear ∧ p.item = item) :
    ∃ parts : List Part, items = parts.map Part.item ∧ ∀ p ∈ parts, p.Clear := by
  induction items with
  | nil => exact ⟨[], rfl, fun _ hp => absurd hp List.not_mem_nil⟩
  | cons item items ih =>
      obtain ⟨hitem, hitems⟩ := List.forall_mem_cons.mp h
      obtain ⟨p, hp, rfl⟩ := hitem
      obtain ⟨parts, rfl, hparts⟩ := ih hitems
      exact ⟨p :: parts, rfl, List.forall_mem_cons.mpr ⟨hp, hparts⟩⟩

end Part

/-- A block of registers is a part. -/
theorem Item.Clocks.exists_part {clocking : Clocking} {resets updates : List (String × String)}
    {block : Item} (h : block.Clocks clocking resets updates)
    (hresets : clocking ≠ .registered → resets ≠ []) :
    ∃ event ∈ ["always @(posedge clk)", "always @(posedge clk or posedge rst)"],
      (Part.block event resets updates).item = block := by
  have hclocked : resets ≠ [] → clocked resets updates =
      [.conditional "rst" (nonblockings resets) (nonblockings updates)] := by
    intro hne
    rw [clocked, if_neg (mt List.isEmpty_iff.mp hne)]
  cases h with
  | registered => exact ⟨_, List.mem_cons_self, rfl⟩
  | asyncReset =>
      refine ⟨_, List.mem_cons_of_mem _ List.mem_cons_self, ?_⟩
      exact congrArg _ (hclocked (hresets (by decide)))
  | syncReset =>
      refine ⟨_, List.mem_cons_self, ?_⟩
      exact congrArg _ (hclocked (hresets (by decide)))

/-! ## Modules -/

/-- The module is made of these parts, and what it consists of can be told apart. -/
structure Module.Divided (m : Module) (parts : List Part) : Prop where
  name : IsWord m.name
  port : ∀ p ∈ m.ports, p.Clear
  items : m.items = parts.map Part.item
  part : ∀ p ∈ parts, p.Clear

namespace Module

def portLines (ports : List PortDeclaration) : List (List Char) :=
  commaLines (insetLines (ports.map (·.text.toList)))

def lines (m : Module) (parts : List Part) : List (List Char) :=
  ("module ".toList ++ (m.name.toList ++ " (".toList)) :: (portLines m.ports ++
    ");".toList :: [] :: (parts.flatMap (fun p => p.lines ++ [[]]) ++ ["endmodule".toList]))

theorem isLine_ports {ports : List PortDeclaration} (hports : ∀ p ∈ ports, p.Clear) :
    ∀ l ∈ ports.map (·.text.toList), IsLine l ∧ l ≠ [] := by
  intro l hl
  obtain ⟨p, hp, rfl⟩ := List.mem_map.mp hl
  refine ⟨(hports p hp).isLine, ?_⟩
  rw [p.toList_text]
  exact List.append_ne_nil_of_right_ne_nil _ (hports p hp).name.toList_ne_nil

theorem hasLines_ports {ports : List PortDeclaration} (hports : ∀ p ∈ ports, p.Clear) :
    HasLines (indent 4 (",\n".intercalate (ports.map (·.text)))) (portLines ports) := by
  by_cases hnil : ports = []
  · subst hnil
    rfl
  · have hne : ports.map (·.text.toList) ≠ [] := mt List.map_eq_nil_iff.mp hnil
    have hcommas := hasLines_commas (ports.map (·.text))
    rw [List.map_map] at hcommas
    unfold portLines insetLines
    rw [commaLines_map _ hne]
    refine hcommas.indent 4 fun l hl => ⟨?_, ?_⟩
    · exact isLine_commaLines (fun l hl => (isLine_ports hports l hl).1) l hl
    · rcases mem_commaLines hl with ⟨-, hempty⟩ | ⟨l', hl', rfl | rfl⟩
      · exact absurd hempty hne
      · exact (isLine_ports hports l hl').2
      · exact List.append_ne_nil_of_right_ne_nil _ (List.cons_ne_nil _ _)

variable {m : Module} {parts : List Part}

/-- Items are set off by empty lines, and one more stands before what follows them. -/
theorem flatMap_blank (parts : List Part) (rest : List Char) :
    (parts.flatMap fun p => '\n' :: p.lines.flatMap (· ++ ['\n'])) ++ '\n' :: rest =
      '\n' :: ((parts.flatMap fun p => p.lines ++ [[]]).flatMap (· ++ ['\n']) ++ rest) := by
  induction parts with
  | nil => rfl
  | cons p parts ih =>
      rw [List.flatMap_cons, List.append_assoc, ih]
      simp only [List.flatMap_cons, List.flatMap_append, List.append_assoc, List.cons_append,
        List.nil_append]

theorem Divided.toList_text (h : m.Divided parts) :
    m.text.toList = (m.lines parts).flatMap (· ++ ['\n']) := by
  have hports := hasLines_ports h.port
  have hitems : ((Item.texts m.items).map fun item => "\n" ++ item ++ "\n").flatMap
      String.toList = parts.flatMap fun p => '\n' :: p.lines.flatMap (· ++ ['\n']) := by
    rw [Part.texts_eq, h.items, List.map_map, List.map_map, List.flatMap_map]
    refine List.flatMap_congr fun p hp => ?_
    rw [← (h.part p hp).hasLines]
    simp only [Function.comp_apply, String.toList_append, ↓String.reduceToList,
      List.cons_append, List.nil_append]
  unfold HasLines at hports
  unfold Module.text lines
  simp only [toString, String.toList_append, String.toList_join, ↓String.reduceToList,
    List.append_assoc, List.cons_append, List.nil_append, List.flatMap_cons, List.flatMap_append,
    List.flatMap_nil, ← hports, hitems, flatMap_blank]

theorem Divided.isLine (h : m.Divided parts) : ∀ l ∈ m.lines parts, IsLine l := by
  have hfixed : ∀ {l : List Char}, '\n' ∉ l → '\r' ∉ l → IsLine l := .of_notMem
  intro l hl
  rcases List.mem_cons.mp hl with rfl | hl
  · rw [← List.append_assoc]
    refine (hfixed (by decide) (by decide)).append ?_ (by decide)
    exact fun hmem => (List.mem_append.mp hmem).elim (by decide) h.name.oneLine.feed
  rcases List.mem_append.mp hl with hl | hl
  · refine isLine_commaLines (fun l hl => ?_) l hl
    exact (isLine_insetLines (isLine_ports h.port) l hl).1
  rcases List.mem_cons.mp hl with rfl | hl
  · exact hfixed (by decide) (by decide)
  rcases List.mem_cons.mp hl with rfl | hl
  · exact isLine_nil
  rcases List.mem_append.mp hl with hl | hl
  · obtain ⟨p, hp, hl⟩ := List.mem_flatMap.mp hl
    rcases List.mem_append.mp hl with hl | hl
    · exact (h.part p hp).isLine l hl
    · exact List.mem_singleton.mp hl ▸ isLine_nil
  · exact List.mem_singleton.mp hl ▸ hfixed (by decide) (by decide)

end Module

end Retime.Verilog

import Retime.Proofs.Verilog.Lines

/-! # Unambiguous texts

Two modules with the same text are the same. The text is taken apart from its front: every line
tells what it was made of, and the line after the last one of a list is no further line of it.
-/

namespace Retime.Verilog

open Text Dataflow

/-! ## Lines -/

/-- A word ends where a character follows that is no letter. -/
theorem IsWord.append_inj {s t : String} (hs : IsWord s) (ht : IsWord t) {c : Char}
    (hc : isLetter c = false) {r r' : List Char} (h : s.toList ++ c :: r = t.toList ++ c :: r') :
    s = t ∧ r = r' := by
  obtain ⟨hchars, hrest⟩ := append_cons_inj_of_notMem_left (hs.notMem hc) (ht.notMem hc) h
  exact ⟨String.toList_inj.mp hchars, hrest⟩

theorem range_append_inj {w w' : Nat} (hw : 0 < w) (hw' : 0 < w') {s t : String} (hs : IsWord s)
    (ht : IsWord t) (h : (rangeText w).toList ++ s.toList = (rangeText w').toList ++ t.toList) :
    w = w' ∧ s = t := by
  -- a word does not start with a bracket
  have hbracket : ∀ {s : String}, IsWord s → ∀ {r : List Char}, '[' :: r ≠ s.toList :=
    fun hs _ heq => hs.notMem (c := '[') rfl (heq ▸ List.mem_cons_self)
  rw [toList_rangeText, toList_rangeText] at h
  split at h
  next hvector =>
    split at h
    next hvector' =>
      simp only [List.cons_append, List.append_assoc, List.nil_append, List.cons.injEq,
        true_and] at h
      obtain ⟨hdigits, hrest⟩ :=
        append_cons_inj_of_notMem_left (notMem_repr rfl _) (notMem_repr rfl _) h
      have hhigh := Nat.repr_injective (String.toList_inj.mp hdigits)
      simp only [List.cons.injEq, true_and] at hrest
      exact ⟨by omega, String.toList_inj.mp hrest⟩
    next => exact absurd h (hbracket ht)
  next hscalar =>
    split at h
    next => exact absurd h.symm (hbracket hs)
    next hscalar' => exact ⟨by omega, String.toList_inj.mp h⟩

theorem PortDeclaration.Clear.inj {p q : PortDeclaration} (hp : p.Clear) (hq : q.Clear)
    (h : p.text.toList = q.text.toList) : p = q := by
  obtain ⟨direction, width, name⟩ := p
  obtain ⟨direction', width', name'⟩ := q
  rw [toList_text, toList_text] at h
  simp only [List.append_assoc] at h
  have hfirst := congrArg List.head? h
  obtain rfl : direction = direction' := by
    cases direction <;> cases direction' <;>
      first | rfl | exact absurd (Option.some.inj hfirst) (by decide)
  have hrest := List.append_cancel_left (List.append_cancel_left h)
  obtain ⟨rfl, rfl⟩ := range_append_inj hp.width hq.width hp.name hq.name hrest
  rfl

theorem NetDeclaration.Clear.inj {n n' : NetDeclaration} (hn : n.Clear) (hn' : n'.Clear)
    (h : n.text.toList = n'.text.toList) : n = n' := by
  obtain ⟨kind, width, name⟩ := n
  obtain ⟨kind', width', name'⟩ := n'
  rw [toList_text, toList_text] at h
  dsimp only at h
  have hfirst := congrArg List.head? h
  obtain rfl : kind = kind' := by
    cases kind <;> cases kind' <;>
      first | rfl | exact absurd (Option.some.inj hfirst) (by decide)
  have hrest := List.append_cancel_right (List.cons.inj (List.append_cancel_left h)).2
  obtain ⟨rfl, rfl⟩ := range_append_inj hn.width hn'.width hn.name hn'.name hrest
  rfl

theorem Assign.Clear.inj {a b : Assign} (ha : a.Clear) (hb : b.Clear)
    (h : a.text.toList = b.text.toList) : a = b := by
  obtain ⟨target, value⟩ := a
  obtain ⟨target', value'⟩ := b
  rw [toList_text, toList_text] at h
  obtain ⟨rfl, hrest⟩ := ha.target.append_inj hb.target rfl (List.append_cancel_left h)
  simp only [List.cons.injEq, true_and] at hrest
  obtain rfl := String.toList_inj.mp (List.append_cancel_right hrest)
  rfl

theorem ClearUpdate.inj {u v : String × String} (hu : ClearUpdate u) (hv : ClearUpdate v)
    (h : updateLine u = updateLine v) : u = v := by
  obtain ⟨target, value⟩ := u
  obtain ⟨target', value'⟩ := v
  obtain ⟨rfl, hrest⟩ := hu.target.append_inj hv.target rfl h
  simp only [List.cons.injEq, true_and] at hrest
  obtain rfl := String.toList_inj.mp (List.append_cancel_right hrest)
  rfl

/-! ## Copies -/

theorem connectionLine_inj {e e' : String × Option String} (he : ClearConnection e)
    (he' : ClearConnection e') (h : connectionLine e = connectionLine e') : e = e' := by
  obtain ⟨formal, actual⟩ := e
  obtain ⟨formal', actual'⟩ := e'
  rw [connectionLine_eq, connectionLine_eq] at h
  obtain ⟨rfl, hrest⟩ := he.formal.append_inj he'.formal rfl (List.append_cancel_left h)
  have hvalue : actual.getD "" = actual'.getD "" :=
    String.toList_inj.mp (List.append_cancel_right hrest)
  -- what is connected is not empty
  cases actual with
  | none =>
      cases actual' with
      | none => rfl
      | some v' => exact absurd hvalue.symm (he'.actual v' rfl).nonempty
  | some v =>
      cases actual' with
      | none => exact absurd hvalue (he.actual v rfl).nonempty
      | some v' => exact congrArg (fun v => (formal, some v)) hvalue

/-- All lines start with a blank. -/
def Inset (ls : List (List Char)) : Prop :=
  ∀ l ∈ ls, l.head? = some ' '

theorem inset_insetLines (ls : List (List Char)) : Inset (insetLines ls) := by
  intro l hl
  obtain ⟨l', -, rfl⟩ := List.mem_map.mp hl
  rfl

section Inset

variable {ls : List (List Char)} (h : Inset ls) {l : List Char}
include h

theorem Inset.notMem (hl : l.head? ≠ some ' ') : l ∉ ls :=
  fun hmem => hl (h l hmem)

theorem Inset.ne_nil : ∀ l ∈ ls, l ≠ [] := by
  rintro l hl rfl
  cases h _ hl

theorem Inset.notMem_commaLines (hne : l ≠ []) (hl : l.head? ≠ some ' ') : l ∉ commaLines ls := by
  intro hmem
  rcases mem_commaLines hmem with ⟨rfl, -⟩ | ⟨l', hl', rfl | rfl⟩
  · exact hne rfl
  · exact hl (h l hl')
  · rw [List.head?_append_of_ne_nil _ (h.ne_nil l' hl')] at hl
    exact hl (h l' hl')

end Inset

/-- A list that is set off by commas ends before a line that is not inset. -/
theorem commaLines_append_inj {ls ls' : List (List Char)} (hls : Inset ls) (hls' : Inset ls')
    {l : List Char} (hne : l ≠ []) (hl : l.head? ≠ some ' ') {r r' : List (List Char)}
    (h : commaLines ls ++ l :: r = commaLines ls' ++ l :: r') : ls = ls' ∧ r = r' := by
  obtain ⟨hcommas, hrest⟩ := append_cons_inj_of_notMem_left (hls.notMem_commaLines hne hl)
    (hls'.notMem_commaLines hne hl) h
  exact ⟨commaLines_inj hls.ne_nil hls'.ne_nil hcommas, hrest⟩

theorem Copy.Clear.split {c c' : Copy} (hc : c.Clear) (hc' : c'.Clear) {r r' : List (List Char)}
    (h : c.lines ++ r = c'.lines ++ r') : c = c' ∧ r = r' := by
  have hinset : ∀ connections : List (String × Option String),
      Inset (connections.map connectionLine) := by
    intro connections l hl
    obtain ⟨e, -, rfl⟩ := List.mem_map.mp hl
    rw [connectionLine_eq]
    rfl
  obtain ⟨moduleName, name, connections⟩ := c
  obtain ⟨moduleName', name', connections'⟩ := c'
  simp only [Copy.lines, List.cons_append, List.append_assoc, List.nil_append,
    List.cons.injEq] at h
  obtain ⟨hheader, hrest⟩ := h
  obtain ⟨rfl, hname⟩ := hc.moduleName.append_inj hc'.moduleName rfl hheader
  obtain ⟨rfl, -⟩ := hc.name.append_inj hc'.name rfl hname
  obtain ⟨hlines, rfl⟩ := commaLines_append_inj (hinset _) (hinset _) (List.cons_ne_nil _ _)
    (by decide) hrest
  obtain rfl := map_inj_of_forall connectionLine_inj hc.connection hc'.connection hlines
  exact ⟨rfl, rfl⟩

/-! ## Blocks -/

theorem insetLines_inj {ls ls' : List (List Char)} (h : insetLines ls = insetLines ls') :
    ls = ls' :=
  List.map_injective_iff.mpr (List.append_right_injective _) h

theorem insetLines_append_inj {ls ls' : List (List Char)} {l : List Char}
    (hl : l.head? ≠ some ' ') {r r' : List (List Char)}
    (h : insetLines ls ++ l :: r = insetLines ls' ++ l :: r') : ls = ls' ∧ r = r' := by
  obtain ⟨hlines, hrest⟩ := append_cons_inj_of_notMem_left ((inset_insetLines ls).notMem hl)
    ((inset_insetLines ls').notMem hl) h
  exact ⟨insetLines_inj hlines, hrest⟩

section Clocked

variable {resets resets' updates updates' : List (String × String)}

/-- No assignment is written like the condition on the reset. -/
theorem ClearUpdate.ne_condition {u : String × String} (hu : ClearUpdate u) :
    updateLine u ≠ "if (rst) begin".toList := by
  intro h
  have hif : IsWord "if" := by decide
  have hsplit : "if (rst) begin".toList = "if".toList ++ ' ' :: "(rst) begin".toList := by decide
  rw [updateLine, hsplit] at h
  obtain ⟨-, hrest⟩ := hu.target.append_inj hif rfl h
  exact absurd (List.cons.inj hrest).1 (by decide)

theorem clockedLines_inj (hresets : ∀ u ∈ resets, ClearUpdate u)
    (hresets' : ∀ u ∈ resets', ClearUpdate u) (hupdates : ∀ u ∈ updates, ClearUpdate u)
    (hupdates' : ∀ u ∈ updates', ClearUpdate u)
    (h : clockedLines resets updates = clockedLines resets' updates') :
    resets = resets' ∧ updates = updates' := by
  -- the first line tells whether there are resets
  have hplain : ∀ {updates : List (String × String)}, (∀ u ∈ updates, ClearUpdate u) →
      ∀ {rest}, updates.map updateLine ≠ "if (rst) begin".toList :: rest := by
    intro updates hupdates rest heq
    obtain ⟨u, _, rfl, hu, -⟩ := List.map_eq_cons_iff.mp heq
    exact (hupdates u List.mem_cons_self).ne_condition hu
  unfold clockedLines at h
  split at h
  next hempty =>
    split at h
    next hempty' =>
      rw [List.isEmpty_iff.mp hempty, List.isEmpty_iff.mp hempty']
      exact ⟨rfl, map_inj_of_forall ClearUpdate.inj hupdates hupdates' h⟩
    next => exact absurd h (hplain hupdates)
  next =>
    split at h
    next => exact absurd h.symm (hplain hupdates')
    next =>
      obtain ⟨hreset, hrest⟩ := insetLines_append_inj (by decide) (List.cons.inj h).2
      obtain ⟨hupdate, -⟩ := insetLines_append_inj (by decide) hrest
      exact ⟨map_inj_of_forall ClearUpdate.inj hresets hresets' hreset,
        map_inj_of_forall ClearUpdate.inj hupdates hupdates' hupdate⟩

end Clocked

/-! ## Parts -/

namespace Part

/-- The kind of a part: nets, a cycle or a block. -/
def kind : Part → Nat
  | nets _ => 0
  | cycle .. => 1
  | block .. => 2

/-- The kind of a part whose text starts with that letter. -/
def kindOf (c : Char) : Option Nat :=
  if c ∈ ['w', 'r'] then some 0
  else if c = '/' then some 1
  else if c = 'a' then some 2
  else none

/-- The kind by the first letter of the first line. -/
def kindOfLines (ls : List (List Char)) : Option Nat :=
  (ls.head?.bind List.head?).bind kindOf

variable {p q : Part}

theorem Clear.kindOfLines (h : p.Clear) (r : List (List Char)) :
    Part.kindOfLines (p.lines ++ r) = some p.kind := by
  cases h with
  | @nets declarations nonempty declaration =>
      obtain ⟨⟨kind, width, name⟩, rest, rfl⟩ := List.exists_cons_of_ne_nil nonempty
      rw [lines, List.map_cons, NetDeclaration.toList_text]
      dsimp only
      cases kind <;> rfl
  | cycle number nonempty assign copy => rfl
  | block edge nonempty reset update =>
      simp only [List.mem_cons, List.not_mem_nil, or_false] at edge
      rcases edge with rfl | rfl <;> rfl

/-- An assignment is not written like the header of a copy. -/
theorem header_ne_assign {c : Copy} (hc : c.Clear) {a : Assign} (ha : a.Clear) :
    c.moduleName.toList ++ ' ' :: (c.name.toList ++ [' ', '(']) ≠ a.text.toList := by
  intro h
  have hassign : IsWord "assign" := by decide
  rw [a.toList_text] at h
  obtain ⟨-, hrest⟩ := hc.moduleName.append_inj hassign (c := ' ') rfl h
  obtain ⟨-, hmark⟩ := hc.name.append_inj ha.target rfl hrest
  exact absurd (List.cons.inj hmark).1 (by decide)

theorem cycle_inj {assigns assigns' : List Assign} {copies copies' : List Copy}
    (hassigns : ∀ a ∈ assigns, a.Clear) (hassigns' : ∀ a ∈ assigns', a.Clear)
    (hcopies : ∀ c ∈ copies, c.Clear) (hcopies' : ∀ c ∈ copies', c.Clear)
    {r r' : List (List Char)}
    (h : assigns.map (·.text.toList) ++ (copies.flatMap Copy.lines ++ [] :: r) =
      assigns'.map (·.text.toList) ++ (copies'.flatMap Copy.lines ++ [] :: r')) :
    assigns = assigns' ∧ copies = copies' ∧ r = r' := by
  -- what follows the assignments is a copy or an empty line
  have hstop : ∀ {copies : List Copy} {r : List (List Char)}, (∀ c ∈ copies, c.Clear) →
      ∀ a : Assign, a.Clear → (copies.flatMap Copy.lines ++ [] :: r).head? ≠ some a.text.toList := by
    intro copies r hcopies a ha
    cases copies with
    | nil =>
        intro heq
        have hempty := Option.some.inj heq
        rw [a.toList_text] at hempty
        exact List.append_ne_nil_of_left_ne_nil (by decide) _ hempty.symm
    | cons c copies =>
        exact fun heq => header_ne_assign (hcopies c List.mem_cons_self) ha (Option.some.inj heq)
  obtain ⟨rfl, hrest⟩ := map_append_inj (fun r => ∀ a : Assign, a.Clear →
    r.head? ≠ some a.text.toList) Assign.Clear.inj (fun ha hnone => hnone _ ha rfl) hassigns
    hassigns' (hstop hcopies) (hstop hcopies') h
  obtain ⟨rfl, hend⟩ := flatMap_append_inj (f := Copy.lines) (fun r => r.head? = some [])
    (fun hc hc' => hc.split hc') (fun _ heq => List.append_ne_nil_of_right_ne_nil _
      (List.cons_ne_nil _ _) (Option.some.inj heq)) hcopies hcopies' rfl rfl hrest
  exact ⟨rfl, rfl, (List.cons.inj hend).2⟩

theorem text_ne_nil {n : NetDeclaration} : n.text.toList ≠ [] := by
  rw [n.toList_text]
  exact List.append_ne_nil_of_right_ne_nil _ (List.cons_ne_nil _ _)

/-- A part ends before an empty line. -/
theorem Clear.split (hp : p.Clear) (hq : q.Clear) {r r' : List (List Char)}
    (h : p.lines ++ [] :: r = q.lines ++ [] :: r') : p = q ∧ r = r' := by
  have hkind : p.kind = q.kind := by
    have hsame := congrArg Part.kindOfLines h
    rw [hp.kindOfLines, hq.kindOfLines] at hsame
    exact Option.some.inj hsame
  cases hp with
  | nets nonempty declaration =>
      cases hq with
      | nets nonempty' declaration' =>
          obtain ⟨rfl, hrest⟩ := map_append_inj (fun r => r.head? = some [])
            NetDeclaration.Clear.inj (fun _ heq => text_ne_nil (Option.some.inj heq))
            declaration declaration' rfl rfl h
          exact ⟨rfl, (List.cons.inj hrest).2⟩
      | _ => cases hkind
  | cycle number nonempty assign copy =>
      cases hq with
      | cycle number' nonempty' assign' copy' =>
          simp only [lines, List.cons_append, List.append_assoc, List.cons.injEq] at h
          obtain ⟨hnumber, hrest⟩ := h
          obtain rfl := Nat.repr_injective (String.toList_inj.mp (List.append_cancel_left hnumber))
          obtain ⟨rfl, rfl, rfl⟩ := cycle_inj assign assign' copy copy' hrest
          exact ⟨rfl, rfl⟩
      | _ => cases hkind
  | block edge nonempty reset update =>
      cases hq with
      | block edge' nonempty' reset' update' =>
          simp only [lines, List.cons_append, List.append_assoc, List.nil_append,
            List.cons.injEq] at h
          obtain ⟨hevent, hrest⟩ := h
          obtain rfl := String.toList_inj.mp (List.append_cancel_right hevent)
          obtain ⟨hclocked, hend⟩ := insetLines_append_inj (by decide) hrest
          obtain ⟨rfl, rfl⟩ := clockedLines_inj reset reset' update update' hclocked
          exact ⟨rfl, (List.cons.inj hend).2⟩
      | _ => cases hkind

end Part

/-! ## Modules -/

/-- Two modules with the same text are the same. -/
theorem Module.Divided.eq_of_text {m m' : Module} {parts parts' : List Part}
    (hm : m.Divided parts) (hm' : m'.Divided parts') (h : m.text = m'.text) : m = m' := by
  have hlines : m.lines parts = m'.lines parts' := by
    rw [← lines_flatMap hm.isLine, ← lines_flatMap hm'.isLine, ← hm.toList_text,
      ← hm'.toList_text, h]
  obtain ⟨hheader, hrest⟩ := List.cons.inj hlines
  have hname := List.append_cancel_right (List.append_cancel_left hheader)
  obtain ⟨hports, hitems⟩ := commaLines_append_inj (inset_insetLines _) (inset_insetLines _)
    (by decide) (by decide) hrest
  have hsplit : ∀ {p q : Part} {r r' : List (List Char)}, p.Clear → q.Clear →
      (p.lines ++ [[]]) ++ r = (q.lines ++ [[]]) ++ r' → p = q ∧ r = r' := by
    intro p q r r' hp hq hsame
    rw [List.append_assoc, List.append_assoc] at hsame
    exact hp.split hq hsame
  have hstop : ∀ {p : Part} {r : List (List Char)}, p.Clear →
      Part.kindOfLines ((p.lines ++ [[]]) ++ r) ≠ none := by
    intro p r hp
    rw [List.append_assoc, hp.kindOfLines]
    exact Option.some_ne_none _
  obtain ⟨hparts, -⟩ := flatMap_append_inj (fun r => Part.kindOfLines r = none) hsplit hstop
    hm.part hm'.part rfl rfl (List.cons.inj hitems).2
  have hports' := map_inj_of_forall PortDeclaration.Clear.inj hm.port hm'.port
    (insetLines_inj hports)
  obtain ⟨name, ports, items⟩ := m
  obtain ⟨name', ports', items'⟩ := m'
  obtain rfl : items = items' := hm.items.trans (hparts ▸ hm'.items.symm)
  obtain rfl : name = name' := String.toList_inj.mp hname
  obtain rfl : ports = ports' := hports'
  rfl

end Retime.Verilog

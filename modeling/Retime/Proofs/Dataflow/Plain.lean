import Retime.Proofs.Dataflow.Resolve
import Std.Data.String.ToNat
import Mathlib.Data.List.Basic

/-! # Plain names

The name of a stage has an underscore in it. As long as the declared names have none, no stage
can meet a name that is taken, and so every value that is declared can be read from its own
cycle on.
-/

namespace Retime.Dataflow

open Retime.Action

/-- A name that no stage can have. -/
def Plain (name : String) : Prop :=
  '_' ∉ name.toList

/-- The declared signals are `decls`, under plain names, and all others are stages that are
named after them. -/
structure Tidy (decls : List Declaration) (d : Dataflow) : Prop where
  sound : d.Sound
  stem : ∀ root, (d.line root).stem = none
  declared : ∀ {s}, d.netlist.signal? s.id = some s → s.isStage = false → s.toDeclaration ∈ decls
  mem : ∀ {decl}, decl ∈ decls → ∃ id, d.netlist.signal? id = some ⟨decl, id⟩
  nonstage : ∀ {decl}, decl ∈ decls → ∀ r depth, decl.driver ≠ .stage r depth
  plain : ∀ {decl}, decl ∈ decls → Plain decl.name

variable {d d' : Dataflow} {decls : List Declaration}

/-! ## Names of stages -/

theorem toList_stageName (stem : String) (depth : Nat) :
    (stageName stem depth).toList = stem.toList ++ '_' :: 'd' :: depth.repr.toList := by
  simp [stageName, toString]

theorem stageName_not_plain (stem : String) (depth : Nat) : ¬ Plain (stageName stem depth) := by
  simp [Plain, toList_stageName]

theorem notMem_repr {c : Char} (hc : c.isDigit = false) (n : Nat) :
    c ∉ n.repr.toList := by
  intro hmem
  rw [Nat.toList_repr] at hmem
  rw [Nat.isDigit_of_mem_toDigits (by decide) (by decide) hmem] at hc
  cases hc

/-- What stands before the first `c`, and what after it. -/
theorem append_cons_inj_of_notMem_left {α : Type} {c : α} {l l' rest rest' : List α} (hl : c ∉ l)
    (hl' : c ∉ l') (h : l ++ c :: rest = l' ++ c :: rest') : l = l' ∧ rest = rest' := by
  induction l generalizing l' with
  | nil =>
      cases l' with
      | nil => exact ⟨rfl, (List.cons.inj h).2⟩
      | cons a l' =>
          rw [(List.cons.inj h).1] at hl'
          exact absurd List.mem_cons_self hl'
  | cons a l ih =>
      cases l' with
      | nil =>
          rw [← (List.cons.inj h).1] at hl
          exact absurd List.mem_cons_self hl
      | cons b l' =>
          obtain ⟨rfl, hrest⟩ := List.cons.inj h
          have htail := ih (fun hmem => hl (List.mem_cons_of_mem _ hmem))
            (fun hmem => hl' (List.mem_cons_of_mem _ hmem)) hrest
          exact ⟨congrArg _ htail.1, htail.2⟩

/-- The name of a stage tells the name it was made of and the depth. -/
theorem stageName_injective {stem stem' : String} {depth depth' : Nat}
    (h : stageName stem depth = stageName stem' depth') : stem = stem' ∧ depth = depth' := by
  have hchars := congrArg (fun name => name.toList.reverse) h
  simp only [toList_stageName, List.reverse_append, List.reverse_cons, List.append_assoc,
    List.cons_append, List.nil_append] at hchars
  -- read from its end, the name has its digits first, then `d`, and then the first underscore
  have hdigits : ∀ k : Nat, 'd' ∉ k.repr.toList.reverse := by
    intro k hmem
    exact notMem_repr rfl k (List.mem_reverse.mp hmem)
  obtain ⟨hdepth, hrest⟩ := append_cons_inj_of_notMem_left (hdigits depth) (hdigits depth') hchars
  have hstem : stem.toList = stem'.toList := List.reverse_inj.mp (List.cons.inj hrest).2
  have hrepr : depth.repr = depth'.repr := String.toList_inj.mp (List.reverse_inj.mp hdepth)
  exact ⟨String.toList_inj.mp hstem, Nat.repr_injective hrepr⟩

/-! ## Declarations -/

theorem tidy_empty : Tidy [] {} where
  sound := sound_empty
  stem _ := by simp [line]
  declared hs := by simp [Netlist.signal?] at hs
  mem hdecl := by simp at hdecl
  nonstage hdecl := by simp at hdecl
  plain hdecl := by simp at hdecl

section Tidy

variable (h : d.Tidy decls)
include h

/-- A stage is named after its root, and has its place behind it. -/
theorem Tidy.stage {s : Signal} (hs : d.netlist.signal? s.id = some s) (hstage : s.isStage = true) :
    ∃ root k, d.netlist.signal? root.id = some root ∧ root.isStage = false ∧
      (d.stages root.id)[k]? = some s.id ∧ s.name = stageName root.name (k + 1) := by
  obtain ⟨r, depth, hdriver⟩ : ∃ r depth, s.driver = .stage r depth := by
    unfold Signal.isStage at hstage
    split at hstage
    next r depth hdriver => exact ⟨r, depth, hdriver⟩
    · cases hstage
  obtain ⟨k, -, hk⟩ := h.sound.place hs hdriver
  obtain ⟨root, hroot, hnone, -, hs'⟩ := h.sound.stage hk
  obtain rfl := h.sound.lawful.id_eq hroot
  refine ⟨root, k, hroot, hnone, hk, ?_⟩
  rw [Option.some.inj (hs.symm.trans hs')]
  simp [stageOf, Dataflow.stem, h.stem]

/-- A plain name is taken by a declared signal only. -/
theorem Tidy.contains_iff {name : String} (hname : Plain name) :
    d.netlist.contains name = true ↔ name ∈ decls.map (·.name) := by
  rw [h.sound.lawful.contains_iff, List.mem_map]
  constructor
  · rintro ⟨s, hs, rfl⟩
    refine ⟨s.toDeclaration, h.declared hs ?_, rfl⟩
    rw [Bool.eq_false_iff]
    intro hstage
    obtain ⟨root, k, -, -, -, hstageName⟩ := h.stage hs hstage
    exact stageName_not_plain _ _ (hstageName ▸ hname)
  · rintro ⟨decl, hdecl, rfl⟩
    obtain ⟨id, hid⟩ := h.mem hdecl
    exact ⟨⟨decl, id⟩, (h.sound.lawful.id_eq hid).symm ▸ hid, rfl⟩

theorem Tidy.declare (decl : Declaration) (hname : Plain decl.name)
    (hfresh : decl.name ∉ decls.map (·.name)) (hdriver : ∀ r depth, decl.driver ≠ .stage r depth) :
    d.netlist.contains decl.name = false ∧
      Tidy (decls ++ [decl]) { d with netlist := d.netlist.add decl } := by
  have hfree : d.netlist.contains decl.name = false := by
    rw [Bool.eq_false_iff]
    exact fun htaken => hfresh ((h.contains_iff hname).mp htaken)
  refine ⟨hfree, h.sound.declare hfree hdriver, h.stem, fun hs hnone => ?_, fun hdecl => ?_,
    fun hdecl => ?_, fun hdecl => ?_⟩
  · rcases Netlist.signal?_add_cases hs with ⟨-, hnew⟩ | hold
    · rw [hnew]
      exact List.mem_append_right _ (List.mem_singleton_self decl)
    · exact List.mem_append_left _ (h.declared hold hnone)
  all_goals rcases List.mem_append.mp hdecl with hold | hnew
  · obtain ⟨id, hid⟩ := h.mem hold
    exact ⟨id, Netlist.extends_add decl _ _ hid⟩
  · obtain rfl := List.mem_singleton.mp hnew
    exact ⟨_, Netlist.signal?_add_size _⟩
  · exact h.nonstage hold
  · obtain rfl := List.mem_singleton.mp hnew
    exact hdriver
  · exact h.plain hold
  · obtain rfl := List.mem_singleton.mp hnew
    exact hname

/-! ## Reading -/

/-- The declared signals stay what they are when a line gets longer. -/
theorem Tidy.lengthens {r : SignalId} (hlonger : Lengthens r d d') (hsound : d'.Sound) :
    d'.Tidy decls where
  sound := hsound
  stem root := by
    by_cases hr : root = r
    · rw [hr, hlonger.stem_eq, h.stem]
    · rw [hlonger.others hr, h.stem]
  declared hs hnone := by
    rcases hlonger.signals hs with hold | hstage
    · exact h.declared hold hnone
    · rw [hnone] at hstage
      cases hstage
  mem hdecl := by
    obtain ⟨id, hid⟩ := h.mem hdecl
    exact ⟨id, hlonger.netlist _ _ hid⟩
  nonstage := h.nonstage
  plain := h.plain

/-- The name of the next stage behind a signal is not taken. -/
theorem Tidy.next_free {root : Signal} (hroot : d.netlist.signal? root.id = some root) :
    d.netlist.contains (stageName (d.stem root) ((d.stages root.id).size + 1)) = false := by
  have hstem : d.stem root = root.name := by simp [Dataflow.stem, h.stem]
  rw [hstem, Bool.eq_false_iff, ne_eq, h.sound.lawful.contains_iff]
  rintro ⟨s, hs, hname⟩
  cases hstage : s.isStage with
  | false =>
      have hplain := h.plain (h.declared hs hstage)
      rw [hname] at hplain
      exact stageName_not_plain _ _ hplain
  | true =>
      obtain ⟨root', k, hroot', hnone', hk, hname'⟩ := h.stage hs hstage
      obtain ⟨hsame, hdepth⟩ := stageName_injective (hname.symm.trans hname')
      obtain rfl := h.sound.lawful.eq_of_name hroot hroot' hsame
      have hlt := (Array.getElem?_eq_some_iff.mp hk).1
      omega

end Tidy

/-- Any number of stages can be appended behind a declared signal. -/
theorem Tidy.wp_addStages (h : d.Tidy decls) {root : Signal}
    (hroot : d.netlist.signal? root.id = some root) (hnone : root.isStage = false)
    (hrole : root.role ≠ .output) (count : Nat) :
    (addStages root (d.stem root) count ((d.stages root.id).size + 1)).wp (fun _ _ => True)
      (fun _ _ => False) d := by
  induction count generalizing d with
  | zero => trivial
  | succ count ih =>
      have hfree := h.next_free hroot
      have hlonger := lengthens_grow (d := d) root
      have hgrown := h.lengthens hlonger (h.sound.grow hroot hnone hrole hfree)
      have hnext := ih hgrown (hlonger.netlist _ _ hroot)
      rw [stem_congr (stem_line_grow root root.id), stages_grow_self, Array.size_push] at hnext
      rw [addStages, wp_bind]
      refine wp_addStage.mpr ⟨fun htaken => ?_, fun _ => hnext⟩
      rw [hfree] at htaken
      cases htaken

/-- A declared signal can be read from its own cycle on. -/
theorem Tidy.wp_resolve (h : d.Tidy decls) {s : Signal} (hs : d.netlist.signal? s.id = some s)
    (hnone : s.isStage = false) (hrole : s.role ≠ .output) {cycle : Nat} (hle : s.cycle ≤ cycle) :
    (resolve s cycle).wp (fun _ d' => d'.Tidy decls ∧ d.Extends d') (fun _ _ => False) d := by
  have hroot : d.netlist.root s = s := by
    unfold Netlist.root
    split
    next r depth hdriver => simp [Signal.isStage, hdriver] at hnone
    · rfl
  have hanswers : (resolve s cycle).wp (fun _ _ => True) (fun _ _ => False) d := by
    unfold resolve
    rw [wp_ite]
    refine ⟨fun hlt => absurd hle (Nat.not_le_of_lt hlt), fun _ => ?_⟩
    rw [wp_ite]
    refine ⟨fun _ => trivial, fun _ => ?_⟩
    rw [wp_bind, wp_get]
    dsimp only
    split
    · trivial
    · rw [wp_bind, hroot]
      exact (h.wp_addStages hs hnone hrole _).mono (fun _ _ _ => trivial) fun _ _ h => h
  refine (hanswers.and (Dataflow.wp_resolve h.sound hs hrole cycle)).mono ?_ fun _ _ h => h.1
  rintro id d' ⟨-, hd'⟩
  exact ⟨h.lengthens hd'.lengthens hd'.sound, hd'.lengthens.toExtends⟩

end Retime.Dataflow

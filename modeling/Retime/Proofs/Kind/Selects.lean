import Retime.Proofs.Kind.Negation
import Retime.Proofs.Kind.Texts

/-! # The selects of the built-in kinds

Adders select bits of words only where they add by segments, so that a word has more than one
bit, and of partial sums, which are wider than their segments. Rakes select nothing. Multipliers
select a part of their second word whatever its width is: that is legal from two bits on. The
fields of a floating-point word never make up a word of one bit.
-/

namespace Retime

open Operator Verilog Build

theorem Segment.selectable_nth {width size i : Nat} (hsize : 0 < size)
    (hi : i < Segment.count width size) (hwidth : 1 < width) :
    BitRange.Selectable ⟨(Segment.nth width size i).high, (Segment.nth width size i).low⟩ width := by
  have hpos := Segment.size_nth_pos hsize hi
  have hend := Segment.low_add_size hsize hi
  constructor
  · exact hwidth
  · simp only [Segment.high]
    omega
  · simp only [Segment.high]
    omega

namespace Kind

variable {lib : Library} {h : Handle} {device : Device} {width size i n : Nat}
  {U : Operator → Prop} {op : Operator}

/-! ## Two words -/

/-- Two words of that width are there. -/
structure WordsDue (width : Nat) (op : Operator) : Prop where
  due : op.Due
  left : op.flow.HasWidth "X" (.vector width)
  right : op.flow.HasWidth "Y" (.vector width)

theorem enduring_wordsDue (width : Nat) : Enduring (WordsDue width) where
  lasting op op' hop h := by
    constructor
    · exact enduring_due.lasting hop h.due
    · exact lasting_hasWidth _ _ hop h.left
    · exact lasting_hasWidth _ _ hop h.right
  later op t hle h := ⟨enduring_due.later op t hle h.due, h.left, h.right⟩

theorem writes_words : Triple lib h (fun _ => True) (Writes Due) (Adder.inputs width)
    fun _ => Writes (WordsDue width) := by
  refine (writes_input enduring_due.lasting (by decide)).bind fun _ => ?_
  have hleft := enduring_due.lasting.and (lasting_takesNow "X" (.vector width))
  refine (writes_input hleft (by decide)).drop fun _ op hop => ?_
  exact ⟨hop.1.1, hop.1.2.hasWidth, hop.2.hasWidth⟩

/-! ## Adders -/

namespace Adder

/-- The words and the first `n` partial sums are there. -/
structure PartsDue (width size n : Nat) (op : Operator) : Prop where
  words : WordsDue width op
  parts : ∀ i < n, op.flow.HasWidth (partName i) (.vector ((Segment.nth width size i).size + 1))

theorem enduring_partsDue (width size n : Nat) : Enduring (PartsDue width size n) where
  lasting op op' hop h := by
    constructor
    · exact (enduring_wordsDue width).lasting hop h.words
    · exact fun i hi => lasting_hasWidth _ _ hop (h.parts i hi)
  later op t hle h := ⟨(enduring_wordsDue width).later op t hle h.words, h.parts⟩

theorem writes_carryInto (hsize : 0 < size) (hi : i < Segment.count width size) (hU : Lasting U)
    (hparts : ∀ op, U op → PartsDue width size i op) :
    Triple lib h (fun _ => True) (Writes U) (carryInto size i)
      fun carry => Writes fun op => U op ∧ Current .primary carry op := by
  cases i with
  | zero => exact writes_answer _ fun op hop => ⟨hop, current_zero 1⟩
  | succ i =>
      refine (writes_consume hU (partName i)).bind fun part => writes_answer _ fun op hop => ?_
      have hwidth := (hparts op hop.1).parts i (Nat.lt_succ_self i)
      rw [Segment.size_of_next hsize hi] at hwidth
      exact ⟨hop.1, hop.2.bit hwidth ⟨Nat.succ_lt_succ hsize, Nat.le_refl _, Nat.lt_succ_self _⟩⟩

theorem current_extended {g : Segment} {name a : String} (ha : Answers name a op)
    (hwidth : op.flow.HasWidth name (.vector width))
    (hrange : BitRange.Selectable ⟨g.high, g.low⟩ width) : Current .product (extended g a) op := by
  refine (current_concat (List.cons_ne_nil _ _) fun e he => ?_).factor
  simp only [List.mem_cons, List.not_mem_nil, or_false] at he
  rcases he with rfl | rfl
  · exact (current_zero 1).factor.term
  · exact (ha.slice hwidth hrange).factor.term

theorem writes_addSegment (hsize : 0 < size) (hwidth : 1 < width)
    (hi : i < Segment.count width size) :
    Triple lib h (fun _ => True) (Writes (PartsDue width size i)) (addSegment device width size i)
      fun _ => Writes (PartsDue width size (i + 1)) := by
  have hparts := enduring_partsDue width size i
  refine (writes_accrue _ hparts.later).bind fun _ => ?_
  refine (writes_consume hparts.lasting "X").bind fun x => ?_
  have hx := hparts.lasting.and (lasting_answers "X" x)
  refine (writes_consume hx "Y").bind fun y => ?_
  have hy := hx.and (lasting_answers "Y" y)
  refine (writes_carryInto hsize hi hy fun op hop => hop.1.1).bind fun carry => ?_
  have hrange := Segment.selectable_nth hsize hi hwidth
  apply (@writes_declare lib h _ (partName i) (partSum (Segment.nth width size i) x y carry) _
    (hy.and (lasting_current .primary carry)) (fun op hop => ?_) (isName_numbered (by decide) i)).drop
  · rintro - op ⟨⟨⟨⟨hbefore, -⟩, -⟩, -⟩, hpart⟩
    exact ⟨hbefore.words, Nat.forall_lt_succ_right.mpr ⟨hbefore.parts, hpart⟩⟩
  · obtain ⟨⟨⟨hbefore, hx⟩, hy⟩, hcarry⟩ := hop
    exact ((current_extended hx hbefore.words.left hrange).term.add
      (current_extended hy hbefore.words.right hrange)).add hcarry.factor

theorem writes_sumOf (hsize : 0 < size) (hi : i < n) (hn : n ≤ Segment.count width size)
    (hU : Lasting U) (hparts : ∀ op, U op → PartsDue width size n op) :
    Triple lib h (fun _ => True) (Writes U) (sumOf width size i)
      fun e => Writes fun op => U op ∧ Current .sum e op := by
  refine (writes_consume hU (partName i)).bind fun part => writes_answer _ fun op hop => ?_
  have hpos := Segment.size_nth_pos hsize (hi.trans_le hn)
  refine ⟨hop.1, (hop.2.slice ((hparts op hop.1).parts i hi) ⟨?_, Nat.zero_le _, ?_⟩).factor.term⟩
  · exact Nat.succ_lt_succ hpos
  · simp only [Width.bits]
    omega

theorem writes_segmented (hsize : 0 < size) (hwidth : 1 < width) :
    Triple lib h (fun _ => True) (Writes (PartsDue width size 0)) (segmented device width size)
      fun _ => Writes Ended := by
  have hcount := Segment.count_pos (Nat.le_of_lt hwidth) hsize
  refine (triple_range (fun i => Writes (PartsDue width size i)) fun i hi =>
    writes_addSegment hsize hwidth hi).bind fun _ => ?_
  have hparts := (enduring_partsDue width size (Segment.count width size)).lasting
  refine (writes_collect (lasting_current .sum) (fun i hi W hW hsub => writes_sumOf hsize
    (List.mem_range.mp (List.mem_reverse.mp hi)) (Nat.le_refl _) hW hsub) hparts).bind fun parts => ?_
  apply @writes_output lib h _ _ "R" (.vector width) (.concat parts)
  · rintro op ⟨-, hlength, hlegal⟩
    rw [List.length_reverse, List.length_range] at hlength
    exact (current_concat (List.ne_nil_of_length_pos (hlength ▸ hcount)) hlegal).factor.term
  · decide
  · exact fun op op' _ hop hconcludes => hop.1.words.due.ended hconcludes

theorem writes_whole : Triple lib h (fun _ => True) (Writes (WordsDue width)) (whole device width)
    fun _ => Writes Ended := by
  have hwords := enduring_wordsDue width
  refine (writes_accrue _ hwords.later).bind fun _ => ?_
  refine (writes_consume hwords.lasting "X").bind fun x => ?_
  have hx := hwords.lasting.and (lasting_answers "X" x)
  refine (writes_consume hx "Y").bind fun y => ?_
  apply @writes_output lib h _ _ "R" (.vector width) (.add (.ident x) (.ident y))
  · exact fun op hop => hop.1.2.ident.factor.term.add hop.2.ident.factor
  · decide
  · exact fun op op' _ hop hconcludes => hop.1.1.due.ended hconcludes

theorem writes_build (hwidth : 1 ≤ width) : Triple lib h (fun _ => True) (Writes Due)
    (build width device) fun _ => Writes Ended := by
  have hsize := segmentSize_pos device hwidth
  refine writes_words.bind fun _ => ?_
  dsimp only
  split
  next hle => exact writes_whole
  next hlt =>
    apply (writes_segmented hsize (by omega)).conseq
    · exact fun op hop => hop.mono fun op hwords =>
        ⟨hwords, fun i hi => absurd hi (Nat.not_lt_zero i)⟩
    · exact fun _ _ hop => hop

end Adder

/-! ## Rakes -/

namespace Rake

theorem weigh_current {r : Rake} {b : String} (hb : Current .primary (.ident b) op) :
    Current .product (r.weigh i (.ident b)) op := by
  unfold weigh
  cases r.shift i with
  | none => exact hb.factor
  | some places => exact (hb.factor.term.shiftLeft places).factor

theorem writes_addTerms (r : Rake) (hnamed : ∀ i, isName (r.sum i).toList = true)
    (hU : Enduring U) (sum : String) (i n : Nat) : Triple lib h (fun _ => True) (Writes U)
      (r.addTerms device sum i n) fun _ => Writes U := by
  induction n generalizing sum i with
  | zero => exact writes_answer sum fun _ hop => hop
  | succ n ih =>
      refine (writes_accrue _ hU.later).bind fun _ => ?_
      refine (writes_consume hU.lasting sum).bind fun a => ?_
      have ha := hU.lasting.and (lasting_answers sum a)
      refine (writes_consume ha (r.term i)).bind fun b => ?_
      have hb := ha.and (lasting_answers (r.term i) b)
      have hdeclared := @writes_declare lib h _ (r.sum i)
        (.add (.ident a) (r.weigh i (.ident b))) r.width hb
        (fun op hop => hop.1.2.ident.factor.term.add (weigh_current hop.2.ident)) (hnamed i)
      exact Triple.bind (hdeclared.drop fun _ op hop => hop.1.1.1) fun _ => ih _ _

theorem writes_build (r : Rake) (hnamed : ∀ i, isName (r.sum i).toList = true)
    (hU : Enduring U) (count : Nat) {U' : Operator → Prop}
    (hU' : ∀ op op', op.Written → U op → op.Concludes op' → U' op') :
    Triple lib h (fun _ => True) (Writes U) (r.build device count)
      fun _ => Writes U' := by
  refine (writes_addTerms r hnamed hU _ _ _).bind fun sum => ?_
  refine (writes_consume hU.lasting sum).bind fun total => ?_
  apply @writes_output lib h _ _ "R" (.vector r.width) (.ident total)
  · exact fun op hop => hop.2.ident.factor.term
  · decide
  · exact fun op op' hwritten hop hconcludes => hU' op op' hwritten hop.1 hconcludes

end Rake

theorem writes_multiAdder (width count : Nat) (device : Device) :
    ∃ m : Build Unit, (multiAdder width count).design device = m.design ∧
      Triple lib h (fun _ => True) (Writes Due) m fun _ => Writes Ended := by
  dsimp only [multiAdder]
  refine ⟨_, rfl, Triple.bind (triple_forEach_keep fun i _ => ?_) fun _ => ?_⟩
  · exact (writes_input enduring_due.lasting (isName_numbered (by decide) i)).drop
      fun _ op hop => hop.1
  · have hnamed : ∀ i, isName ((MultiAdder.rake width).sum i).toList = true :=
      isName_numbered (by decide)
    exact Rake.writes_build (MultiAdder.rake width) hnamed enduring_due count
      fun op op' _ hop hconcludes => hop.ended hconcludes

/-! ## Multipliers -/

namespace Multiplier

theorem writes_build (hwidth : 1 < width) : Triple lib h (fun _ => True) (Writes Due)
    (build width device) fun _ => Writes Ended := by
  have hsize : 0 < segmentSize device := Nat.le_max_right _ 1
  have hwords := enduring_wordsDue width
  refine writes_words.bind fun _ => ?_
  refine (writes_accrue _ hwords.later).bind fun _ => ?_
  refine (writes_consume hwords.lasting "X").bind fun x => ?_
  have hx := hwords.lasting.and (lasting_answers "X" x)
  refine (writes_consume hx "Y").bind fun y => ?_
  have hy := hx.and (lasting_answers "Y" y)
  refine Triple.bind (triple_forEach_keep fun i hi => ?_) fun _ => ?_
  · have hrange := Segment.selectable_nth hsize (List.mem_range.mp hi) hwidth
    exact (@writes_declare lib h _ (partName i)
      (product (Segment.nth width (segmentSize device) i) x y) _ hy
      (fun op hop => (hop.1.2.ident.factor.mul (hop.2.slice hop.1.1.right hrange)).term)
      (isName_numbered (by decide) i)).drop fun _ op hop => hop.1
  · apply (Rake.writes_build (rake width device) (isName_numbered (by decide)) hwords
      (parts width device) fun op op' _ hop hconcludes => hop.due.ended hconcludes).conseq
    · exact fun op hop => hop.mono fun op h => h.1.1
    · exact fun _ _ hop => hop

end Multiplier

/-! ## Negations of floating-point words -/

namespace FloatNegation

variable {we wf : Nat}

/-- A word is there whose fields can be selected. -/
def WordDue (we wf : Nat) (op : Operator) : Prop :=
  op.Due ∧ op.flow.HasWidth "X" (.float we wf)

theorem enduring_wordDue (we wf : Nat) : Enduring (WordDue we wf) where
  lasting := enduring_due.lasting.and (lasting_hasWidth "X" (.float we wf))
  later op t hle h := ⟨enduring_due.later op t hle h.1, h.2⟩

theorem selectable_range (hwe : 1 ≤ we) (f : FloatField) :
    (f.range we wf).Selectable (Width.float we wf).bits where
  vector := by
    simp only [Width.bits]
    omega
  ordered := FloatField.low_le_high hwe f
  within := FloatField.high_lt_bits f

theorem current_field (hwe : 1 ≤ we) {a : String} (ha : Answers "X" a op)
    (hwidth : op.flow.HasWidth "X" (.float we wf)) (f : FloatField) :
    Current .primary ((f.range we wf).expr a) op := by
  unfold BitRange.expr
  split
  next hone =>
    have hrange : (f.range we wf).Selectable (Width.float we wf).bits := selectable_range hwe f
    exact ha.bit hwidth ⟨hrange.vector, Nat.le_refl _, hrange.within⟩
  next => exact ha.slice hwidth (selectable_range hwe f)

theorem writes_field (f : FloatField) (hU : Lasting U) (hword : ∀ op, U op → WordDue we wf op) :
    Triple lib h (fun _ => True) (Writes U) (ask (.consumeField "X" f)) fun text op =>
      ∃ a, text = (f.range we wf).select a ∧ Writes (fun op => U op ∧ Answers "X" a op) op :=
  writes_consumeField hU (fun op hop => (hword op hop).2) (FloatField.fieldRange?_float f)

theorem writes_word (we wf : Nat) : Triple lib h (fun _ => True) (Writes Due)
    (call (.input "X" (.float we wf))) fun _ => Writes (WordDue we wf) :=
  (writes_input enduring_due.lasting (by decide)).drop fun _ _ hop => ⟨hop.1, hop.2.hasWidth⟩

end FloatNegation

open FloatNegation in
theorem writes_floatNegation {we wf : Nat} (hwe : 1 ≤ we) (device : Device) :
    ∃ m : Build Unit, (floatNegation we wf).design device = m.design ∧
      Triple lib h (fun _ => True) (Writes Due) m fun _ => Writes Ended := by
  dsimp only [floatNegation]
  refine ⟨_, rfl, Triple.bind (writes_word we wf) fun _ => ?_⟩
  have hword := enduring_wordDue we wf
  refine (writes_accrue _ hword.later).bind fun _ => ?_
  refine (writes_field .exception hword.lasting fun _ hop => hop).bind fun _ =>
    triple_exists fun exc => triple_and fun hexc => ?_
  have hfirst := hword.lasting.and (lasting_answers "X" exc)
  refine (writes_field .sign hfirst fun _ hop => hop.1).bind fun _ =>
    triple_exists fun sign => triple_and fun hsign => ?_
  have hsecond := hfirst.and (lasting_answers "X" sign)
  refine (writes_field .exponent hsecond fun _ hop => hop.1.1).bind fun _ =>
    triple_exists fun exp => triple_and fun hexp => ?_
  have hthird := hsecond.and (lasting_answers "X" exp)
  refine (writes_field .fraction hthird fun _ hop => hop.1.1.1).bind fun _ =>
    triple_exists fun frac => triple_and fun hfrac => ?_
  rw [hexc, hsign, hexp, hfrac, ← text_negated]
  apply @writes_output lib h _ _ "R" (.float we wf) (negated we wf exc sign exp frac)
  · rintro op ⟨⟨⟨⟨⟨-, hwidth⟩, hexc⟩, hsign⟩, hexp⟩, hfrac⟩
    have hfield : ∀ {a}, Answers "X" a op → ∀ f : FloatField,
        Current .primary ((f.range we wf).expr a) op := fun ha => current_field hwe ha hwidth
    refine (current_concat (List.cons_ne_nil _ _) fun e he => ?_).factor.term
    simp only [List.mem_cons, List.not_mem_nil, or_false] at he
    rcases he with rfl | rfl | rfl | rfl
    · exact (hfield hexc .exception).factor.term
    · exact (hfield hsign .sign).not.factor.term
    · exact (hfield hexp .exponent).factor.term
    · exact (hfield hfrac .fraction).factor.term
  · decide
  · exact fun op op' _ hop hconcludes => hop.1.1.1.1.1.ended hconcludes

end Kind

end Retime

import Mathlib.Data.List.Basic
import Retime.Text.Lines

/-! # Lines and their ends

A text that was put together from lines is taken apart into the same lines, as long as no line
has a line feed in it or ends in a carriage return. Indenting such a text indents its lines.
-/

namespace Retime.Text

/-- What can stand in one line, and stays as it is before a line feed. -/
structure IsLine (l : List Char) : Prop where
  feed : '\n' ∉ l
  last : l.getLast? ≠ some '\r'

variable {l : List Char} {ls : List (List Char)}

theorem isLine_nil : IsLine [] where
  feed := List.not_mem_nil
  last := by simp

theorem IsLine.of_notMem (hfeed : '\n' ∉ l) (hreturn : '\r' ∉ l) : IsLine l where
  feed := hfeed
  last hlast := hreturn (List.mem_of_getLast? hlast)

/-- What comes before the last part of a line may have anything in it but line feeds. -/
theorem IsLine.append {front : List Char} (hfront : '\n' ∉ front) (hl : IsLine l) (hne : l ≠ []) :
    IsLine (front ++ l) where
  feed hmem := (List.mem_append.mp hmem).elim hfront hl.feed
  last := by
    rw [List.getLast?_append_of_ne_nil _ hne]
    exact hl.last

theorem isLine_concat {c : Char} (hl : '\n' ∉ l) (hfeed : c ≠ '\n') (hreturn : c ≠ '\r') :
    IsLine (l ++ [c]) :=
  .append hl (.of_notMem (by simpa using hfeed.symm) (by simpa using hreturn.symm))
    (List.cons_ne_nil c [])

theorem IsLine.tail {c : Char} (h : IsLine (c :: l)) : IsLine l where
  feed hmem := h.feed (List.mem_cons_of_mem c hmem)
  last hlast := by
    apply h.last
    rw [List.getLast?_cons, hlast]
    rfl

theorem lines_cons {c : Char} {rest : List Char} (hc : c ≠ '\n')
    (hreturn : c = '\r' → rest.head? ≠ some '\n') :
    lines (c :: rest) = (c :: (lines rest).headD []) :: (lines rest).tail := by
  conv_lhs => unfold lines
  split
  · next heq => cases heq
  · next heq => exact absurd (List.cons.inj heq).1 hc
  · next heq =>
      obtain ⟨rfl, rfl⟩ := List.cons.inj heq
      exact absurd rfl (hreturn rfl)
  · next heq =>
      obtain ⟨rfl, rfl⟩ := List.cons.inj heq
      cases lines rest <;> rfl

/-- The first line ends at its line feed. -/
theorem lines_append (hl : IsLine l) (rest : List Char) :
    lines (l ++ '\n' :: rest) = l :: lines rest := by
  induction l with
  | nil => rfl
  | cons c l ih =>
      have hc : c ≠ '\n' := fun heq => hl.feed (heq ▸ List.mem_cons_self)
      rw [List.cons_append, lines_cons hc, ih hl.tail]
      · rfl
      · rintro rfl hhead
        cases l with
        | nil => exact hl.last rfl
        | cons d l =>
            obtain rfl := Option.some.inj hhead
            exact hl.tail.feed List.mem_cons_self

/-- A text without a line feed is one line, unless it is empty. -/
theorem lines_of_notMem (hl : '\n' ∉ l) (hne : l ≠ []) : lines l = [l] := by
  induction l with
  | nil => exact absurd rfl hne
  | cons c l ih =>
      obtain ⟨hc, hl⟩ := not_or.mp (mt List.mem_cons.mpr hl)
      rw [lines_cons (Ne.symm hc) fun _ hhead => hl (List.mem_of_head? hhead)]
      cases l with
      | nil => rfl
      | cons d l => rw [ih hl (List.cons_ne_nil d l)]; rfl

/-- Lines that are ended one by one. -/
theorem lines_flatMap (hls : ∀ l ∈ ls, IsLine l) : lines (ls.flatMap (· ++ ['\n'])) = ls := by
  induction ls with
  | nil => rfl
  | cons l ls ih =>
      obtain ⟨hl, hls⟩ := List.forall_mem_cons.mp hls
      rw [List.flatMap_cons, List.append_assoc, List.singleton_append, lines_append hl, ih hls]

/-- Lines with line feeds between them, none of which is empty. -/
theorem lines_intercalate (hls : ∀ l ∈ ls, IsLine l) (hne : ∀ l ∈ ls, l ≠ []) :
    lines (['\n'].intercalate ls) = ls := by
  induction ls with
  | nil => rfl
  | cons l ls ih =>
      obtain ⟨hl, hls⟩ := List.forall_mem_cons.mp hls
      obtain ⟨hnel, hne⟩ := List.forall_mem_cons.mp hne
      cases ls with
      | nil =>
          rw [List.intercalate_singleton]
          exact lines_of_notMem hl.feed hnel
      | cons l' ls =>
          rw [List.intercalate_cons_cons, List.append_assoc, List.singleton_append,
            lines_append hl, ih hls hne]

/-! ## Texts that were put together from lines -/

/-- The text is those lines, with a line feed between each two of them. -/
def HasLines (s : String) (ls : List (List Char)) : Prop :=
  s.toList ++ ['\n'] = ls.flatMap (· ++ ['\n'])

theorem intercalate_feed (hne : ls ≠ []) :
    ['\n'].intercalate ls ++ ['\n'] = ls.flatMap (· ++ ['\n']) := by
  induction ls with
  | nil => exact absurd rfl hne
  | cons l ls ih =>
      cases ls with
      | nil => rw [List.intercalate_singleton, List.flatMap_singleton]
      | cons l' ls =>
          rw [List.intercalate_cons_cons, List.append_assoc, ih (List.cons_ne_nil l' ls)]
          rfl

section HasLines

variable {s t : String}

theorem hasLines_line (s : String) : HasLines s [s.toList] :=
  (List.flatMap_singleton ..).symm

theorem HasLines.append {ls' : List (List Char)} (hs : HasLines s ls) (ht : HasLines t ls') :
    HasLines (s ++ "\n" ++ t) (ls ++ ls') := by
  unfold HasLines at hs ht ⊢
  rw [List.flatMap_append, ← hs, ← ht]
  simp only [String.toList_append, ↓String.reduceToList, List.append_assoc]

theorem HasLines.toList_eq (h : HasLines s ls) : s.toList = ['\n'].intercalate ls := by
  have hne : ls ≠ [] := by
    rintro rfl
    exact List.append_ne_nil_of_right_ne_nil _ (List.cons_ne_nil _ _) h
  exact List.append_cancel_right (h.trans (intercalate_feed hne).symm)

/-- Texts with line feeds between them. -/
theorem hasLines_intercalate {α : Type} {as : List α} {text : α → String}
    {lines : α → List (List Char)} (hne : as ≠ [])
    (h : ∀ a ∈ as, HasLines (text a) (lines a)) :
    HasLines ("\n".intercalate (as.map text)) (as.flatMap lines) := by
  induction as with
  | nil => exact absurd rfl hne
  | cons a as ih =>
      obtain ⟨ha, has⟩ := List.forall_mem_cons.mp h
      cases as with
      | nil =>
          rw [List.map_singleton, String.intercalate_singleton, List.flatMap_singleton]
          exact ha
      | cons a' as =>
          rw [List.map_cons, List.map_cons, String.intercalate_cons_cons, List.flatMap_cons]
          exact ha.append (ih (List.cons_ne_nil a' as) has)

/-- Indentation puts blanks before every line. -/
theorem HasLines.indent (width : Nat) (h : HasLines s ls)
    (hls : ∀ l ∈ ls, IsLine l ∧ l ≠ []) :
    HasLines (Text.indent width s) (ls.map (List.replicate width ' ' ++ ·)) := by
  have hmap : (Text.indent width s).toList =
      ['\n'].intercalate (ls.map (List.replicate width ' ' ++ ·)) := by
    rw [Text.indent, h.toList_eq, lines_intercalate (fun l hl => (hls l hl).1)
      (fun l hl => (hls l hl).2), String.toList_intercalate, List.map_map]
    congr 1
    refine List.map_congr_left fun l hl => ?_
    simp [(hls l hl).2]
  rw [HasLines, hmap]
  apply intercalate_feed
  intro hnil
  rw [List.map_eq_nil_iff] at hnil
  subst hnil
  exact List.append_ne_nil_of_right_ne_nil _ (List.cons_ne_nil _ _) h

end HasLines

/-! ## Commas -/

/-- The lines of a list that is set off by commas: each but the last has a comma at its end. A
list of nothing has an empty line. -/
def commaLines : List (List Char) → List (List Char)
  | [] => [[]]
  | [l] => [l]
  | l :: l' :: ls => (l ++ [',']) :: commaLines (l' :: ls)

theorem commaLines_ne_nil (ls : List (List Char)) : commaLines ls ≠ [] := by
  cases ls with
  | nil => exact List.cons_ne_nil _ _
  | cons l ls => cases ls <;> exact List.cons_ne_nil _ _

theorem intercalate_commaLines (ls : List (List Char)) :
    [',', '\n'].intercalate ls = ['\n'].intercalate (commaLines ls) := by
  induction ls with
  | nil => rfl
  | cons l ls ih =>
      cases ls with
      | nil => rfl
      | cons l' ls =>
          obtain ⟨m, ms, hms⟩ := List.exists_cons_of_ne_nil (commaLines_ne_nil (l' :: ls))
          rw [commaLines, hms, List.intercalate_cons_cons, List.intercalate_cons_cons, ← hms, ← ih]
          simp

theorem hasLines_commas (ts : List String) :
    HasLines (",\n".intercalate ts) (commaLines (ts.map String.toList)) := by
  rw [HasLines, ← intercalate_feed (commaLines_ne_nil _), ← intercalate_commaLines,
    String.toList_intercalate]
  rfl

/-- Blanks before the lines of a list that is not empty. -/
theorem commaLines_map (front : List Char) (hne : ls ≠ []) :
    commaLines (ls.map (front ++ ·)) = (commaLines ls).map (front ++ ·) := by
  induction ls with
  | nil => exact absurd rfl hne
  | cons l ls ih =>
      cases ls with
      | nil => rfl
      | cons l' ls =>
          have hrest := ih (List.cons_ne_nil l' ls)
          simp only [List.map_cons, commaLines, List.append_assoc] at hrest ⊢
          rw [hrest]

theorem mem_commaLines (h : l ∈ commaLines ls) :
    l = [] ∧ ls = [] ∨ ∃ l' ∈ ls, l = l' ∨ l = l' ++ [','] := by
  induction ls with
  | nil => exact .inl ⟨List.mem_singleton.mp h, rfl⟩
  | cons l' ls ih =>
      cases ls with
      | nil => exact .inr ⟨l', List.mem_cons_self, .inl (List.mem_singleton.mp h)⟩
      | cons l'' ls =>
          rcases List.mem_cons.mp h with rfl | hrest
          · exact .inr ⟨l', List.mem_cons_self, .inr rfl⟩
          · rcases ih hrest with ⟨-, hnil⟩ | ⟨m, hm, hl⟩
            · cases hnil
            · exact .inr ⟨m, List.mem_cons_of_mem l' hm, hl⟩

theorem isLine_commaLines (hls : ∀ l ∈ ls, IsLine l) : ∀ l ∈ commaLines ls, IsLine l := by
  intro l hl
  rcases mem_commaLines hl with ⟨rfl, -⟩ | ⟨l', hl', rfl | rfl⟩
  · exact isLine_nil
  · exact hls l hl'
  · exact isLine_concat (hls l' hl').feed (by decide) (by decide)

/-- The commas tell the lines apart, unless there are empty ones. -/
theorem commaLines_inj {ls' : List (List Char)} (hls : ∀ l ∈ ls, l ≠ [])
    (hls' : ∀ l ∈ ls', l ≠ []) (h : commaLines ls = commaLines ls') : ls = ls' := by
  induction ls generalizing ls' with
  | nil =>
      cases ls' with
      | nil => rfl
      | cons l' ls' =>
          cases ls' with
          | nil => exact absurd (List.cons.inj h).1.symm (hls' l' List.mem_cons_self)
          | cons => exact absurd (List.cons.inj h).2.symm (commaLines_ne_nil _)
  | cons l ls ih =>
      cases ls with
      | nil =>
          cases ls' with
          | nil => exact absurd (List.cons.inj h).1 (hls l List.mem_cons_self)
          | cons l' ls' =>
              cases ls' with
              | nil => exact h
              | cons => exact absurd (List.cons.inj h).2.symm (commaLines_ne_nil _)
      | cons m ls =>
          cases ls' with
          | nil => exact absurd (List.cons.inj h).2 (commaLines_ne_nil _)
          | cons l' ls' =>
              cases ls' with
              | nil => exact absurd (List.cons.inj h).2 (commaLines_ne_nil _)
              | cons m' ls' =>
                  obtain ⟨hl, hrest⟩ := List.cons.inj h
                  rw [List.append_cancel_right hl, ih (List.forall_mem_cons.mp hls).2
                    (List.forall_mem_cons.mp hls').2 hrest]

/-! ## Blocks -/

/-- Blocks that can be split off one by one, before something that is no block. -/
theorem flatMap_append_inj {α β : Type} {f : α → List β} {Good : α → Prop}
    (Stop : List β → Prop)
    (hsplit : ∀ {a b : α} {r r' : List β}, Good a → Good b → f a ++ r = f b ++ r' →
      a = b ∧ r = r')
    (hstop : ∀ {a : α} {r : List β}, Good a → ¬ Stop (f a ++ r)) {as bs : List α}
    {r r' : List β} (has : ∀ a ∈ as, Good a) (hbs : ∀ b ∈ bs, Good b) (hr : Stop r)
    (hr' : Stop r') (h : as.flatMap f ++ r = bs.flatMap f ++ r') : as = bs ∧ r = r' := by
  induction as generalizing bs with
  | nil =>
      cases bs with
      | nil => exact ⟨rfl, h⟩
      | cons b bs =>
          rw [List.flatMap_nil, List.nil_append, List.flatMap_cons, List.append_assoc] at h
          exact absurd (h ▸ hr) (hstop (hbs b List.mem_cons_self))
  | cons a as ih =>
      obtain ⟨ha, has⟩ := List.forall_mem_cons.mp has
      rw [List.flatMap_cons, List.append_assoc] at h
      cases bs with
      | nil =>
          rw [List.flatMap_nil, List.nil_append] at h
          exact absurd (h ▸ hr') (hstop ha)
      | cons b bs =>
          rw [List.flatMap_cons, List.append_assoc] at h
          obtain ⟨hb, htail⟩ := List.forall_mem_cons.mp hbs
          obtain ⟨rfl, hrest⟩ := hsplit ha hb h
          obtain ⟨rfl, rfl⟩ := ih has htail hrest
          exact ⟨rfl, rfl⟩

/-- Lines of which each tells what it was made of, before something that is no such line. -/
theorem map_append_inj {α β : Type} {f : α → β} {Good : α → Prop} (Stop : List β → Prop)
    (hinj : ∀ {a b : α}, Good a → Good b → f a = f b → a = b)
    (hstop : ∀ {a : α} {r : List β}, Good a → ¬ Stop (f a :: r)) {as bs : List α}
    {r r' : List β} (has : ∀ a ∈ as, Good a) (hbs : ∀ b ∈ bs, Good b) (hr : Stop r)
    (hr' : Stop r') (h : as.map f ++ r = bs.map f ++ r') : as = bs ∧ r = r' := by
  rw [List.map_eq_flatMap, List.map_eq_flatMap] at h
  refine flatMap_append_inj Stop (fun ha hb hsame => ?_) hstop has hbs hr hr' h
  obtain ⟨hfirst, hrest⟩ := List.cons.inj hsame
  exact ⟨hinj ha hb hfirst, hrest⟩

theorem map_inj_of_forall {α β : Type} {f : α → β} {Good : α → Prop}
    (hinj : ∀ {a b : α}, Good a → Good b → f a = f b → a = b) {as bs : List α}
    (has : ∀ a ∈ as, Good a) (hbs : ∀ b ∈ bs, Good b) (h : as.map f = bs.map f) : as = bs :=
  (map_append_inj (· = []) hinj (fun _ => List.cons_ne_nil _ _) has hbs rfl rfl
    (congrArg (· ++ []) h)).1

end Retime.Text

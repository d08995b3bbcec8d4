import Mathlib.Data.List.TakeWhile
import Mathlib.Logic.Function.Iterate
import Retime.Proofs.Dataflow.Plain
import Retime.Verilog.Expr

/-! # Reading expressions

Operators keep expressions as text. Here the text is read as an expression again: `~` binds
closer than `*`, `*` closer than `+`, and `+` closer than `<<`; sums and products associate to
the left. Expressions whose operands need no further brackets are read back as they were
written.
-/

namespace Retime.Verilog

/-! ## Words -/

/-- What a text consists of besides blanks. A word is an identifier, a constant, a select, a
number or a shift. -/
inductive Token where
  | word (cs : List Char)
  | mark (c : Char)

def isNameChar (c : Char) : Bool :=
  c.isAlphanum || c == '_'

def isWordChar (c : Char) : Bool :=
  isNameChar c || ['\'', '[', ':', ']', '<'].contains c

/-- The tokens of a text; `begun` is the word that it goes on with. -/
def tokens : List Char → List Char → List Token
  | begun, [] => if begun.isEmpty then [] else [.word begun]
  | begun, c :: cs =>
    if isWordChar c then tokens (begun ++ [c]) cs
    else
      (if begun.isEmpty then [] else [.word begun])
        ++ (if c = ' ' then [] else [.mark c]) ++ tokens [] cs

def isName (cs : List Char) : Bool :=
  cs.all isNameChar && cs.head?.any (!·.isDigit)

def number (cs : List Char) : Option Nat :=
  (String.ofList cs).toNat?

namespace Expr

/-- A select of a name, by what follows the opening bracket. -/
def select (name : String) (cs : List Char) : Option Expr :=
  match cs.dropWhile Char.isDigit with
  | [']'] => (number (cs.takeWhile Char.isDigit)).map (.bit name)
  | ':' :: rest =>
    match rest.dropWhile Char.isDigit with
    | [']'] => do
      let high ← number (cs.takeWhile Char.isDigit)
      let low ← number (rest.takeWhile Char.isDigit)
      return .slice name high low
    | _ => none
  | _ => none

/-- The operand that a word stands for. -/
def ofWord (cs : List Char) : Option Expr :=
  let first := cs.takeWhile isNameChar
  match cs.dropWhile isNameChar with
  | [] => if isName first then some (.ident (String.ofList first)) else none
  | '[' :: rest => if isName first then select (String.ofList first) rest else none
  | ['\'', 'b', '0'] => (number first).map .zero
  | _ => none

end Expr

/-! ## Phrases -/

/-- A term is added to what stands before it. -/
def plus : Option Expr → Expr → Expr
  | none, e => e
  | some a, e => .add a e

/-- A factor is multiplied with what stands before it. -/
def times : Option Expr → Expr → Expr
  | none, e => e
  | some a, e => .mul a e

/-- What was read since the last bracket that is open. -/
inductive Phrase where
  /-- The terms before the last one, the factors before the last one, the complements of the
  last factor, and the factor, unless it is still missing. -/
  | terms (sum product : Option Expr) (complements : Nat) (factor : Option Expr)
  /-- The number of places is missing. -/
  | shift (e : Expr)
  | shifted (e : Expr)

/-- A bracket that is open; in braces there are parts that are complete. -/
inductive Bracket where
  | parenthesis
  | brace (parts : List Expr)

/-- A phrase, and the brackets around it with the phrases that they interrupt. -/
structure Reader where
  phrase : Phrase := .terms none none 0 none
  outer : List (Bracket × Phrase) := []

namespace Phrase

/-- The expression that the phrase is, if it may end here. -/
def whole : Phrase → Option Expr
  | terms sum product _ (some e) => some (plus sum (times product e))
  | shifted e => some e
  | _ => none

/-- The phrase with its next factor. -/
def take (e : Expr) : Phrase → Option Phrase
  | terms sum product complements none =>
    some (terms sum product 0 (some (Expr.not^[complements] e)))
  | _ => none

end Phrase

namespace Reader

def word (r : Reader) (cs : List Char) : Option Reader :=
  match r.phrase with
  | .shift e => do
    let places ← number cs
    return { r with phrase := .shifted (.shiftLeft e places) }
  | .terms sum product _ (some e) =>
    if cs = ['<', '<'] then some { r with phrase := .shift (plus sum (times product e)) }
    else none
  | phrase => do
    let e ← Expr.ofWord cs
    let phrase ← phrase.take e
    return { r with phrase }

def mark (r : Reader) (c : Char) : Option Reader :=
  match c, r with
  | '~', ⟨.terms sum product complements none, outer⟩ =>
    some ⟨.terms sum product (complements + 1) none, outer⟩
  | '*', ⟨.terms sum product _ (some e), outer⟩ =>
    some ⟨.terms sum (some (times product e)) 0 none, outer⟩
  | '+', ⟨.terms sum product _ (some e), outer⟩ =>
    some ⟨.terms (some (plus sum (times product e))) none 0 none, outer⟩
  | '(', ⟨phrase, outer⟩ => some { outer := (.parenthesis, phrase) :: outer }
  | '\x7b', ⟨phrase, outer⟩ => some { outer := (.brace [], phrase) :: outer }
  | ',', ⟨phrase, (.brace parts, around) :: outer⟩ => do
    let e ← phrase.whole
    return { outer := (.brace (parts ++ [e]), around) :: outer }
  | ')', ⟨phrase, (.parenthesis, around) :: outer⟩ => do
    let e ← phrase.whole
    let phrase ← around.take e
    return { phrase, outer }
  | '\x7d', ⟨phrase, (.brace parts, around) :: outer⟩ => do
    let e ← phrase.whole
    let phrase ← around.take (.concat (parts ++ [e]))
    return { phrase, outer }
  | _, _ => none

def step (r : Reader) : Token → Option Reader
  | .word cs => r.word cs
  | .mark c => r.mark c

/-- The reader after a text. -/
def run (r : Reader) (cs : List Char) : Option Reader :=
  (tokens [] cs).foldlM step r

end Reader

/-- The expression that a text is, if it is one. -/
def Expr.read (text : String) : Option Expr := do
  let r ← Reader.run {} text.toList
  if r.outer.isEmpty then r.phrase.whole else none

/-! ## Legible expressions -/

inductive Level where
  | primary
  | product
  | sum

/-- The operands of an expression bind at least as close as its operator. -/
inductive Legible : Level → Expr → Prop where
  | ident {name : String} (named : isName name.toList = true) : Legible .primary (.ident name)
  | zero (width : Nat) : Legible .primary (.zero width)
  | slice {name : String} (named : isName name.toList = true) (high low : Nat) :
      Legible .primary (.slice name high low)
  | bit {name : String} (named : isName name.toList = true) (position : Nat) :
      Legible .primary (.bit name position)
  | not {e : Expr} (operand : Legible .primary e) : Legible .primary (.not e)
  | shiftLeft {e : Expr} (operand : Legible .sum e) (places : Nat) :
      Legible .primary (.shiftLeft e places)
  | concat {parts : List Expr} (nonempty : parts ≠ [])
      (legible : ∀ e ∈ parts, Legible .sum e) : Legible .primary (.concat parts)
  | mul {a b : Expr} (left : Legible .product a) (right : Legible .primary b) :
      Legible .product (.mul a b)
  | add {a b : Expr} (left : Legible .sum a) (right : Legible .product b) :
      Legible .sum (.add a b)
  | factor {e : Expr} (primary : Legible .primary e) : Legible .product e
  | term {e : Expr} (product : Legible .product e) : Legible .sum e

/-- A word cannot go on here. -/
def Ends (cs : List Char) : Prop :=
  ∀ c ∈ cs.head?, isWordChar c = false

variable {w cs begun : List Char} {r : Reader} {name : String}

theorem ends_nil : Ends [] := by
  simp [Ends]

theorem ends_cons {c : Char} (hc : isWordChar c = false) : Ends (c :: cs) := by
  simpa [Ends] using hc

/-! ## Reading words -/

theorem tokens_append (hw : ∀ c ∈ w, isWordChar c = true) :
    tokens begun (w ++ cs) = tokens (begun ++ w) cs := by
  induction w generalizing begun with
  | nil => simp
  | cons c w ih =>
      rw [List.cons_append, tokens, if_pos (hw c List.mem_cons_self),
        ih fun c' hc' => hw c' (List.mem_cons_of_mem _ hc')]
      simp

theorem tokens_of_ends (hbegun : begun ≠ []) (hcs : Ends cs) :
    tokens begun cs = .word begun :: tokens [] cs := by
  cases cs with
  | nil => simp [tokens, hbegun]
  | cons c cs =>
      have hc : isWordChar c = false := by simpa [Ends] using hcs
      simp [tokens, hbegun, hc]

namespace Reader

theorem run_word (hne : w ≠ []) (hw : ∀ c ∈ w, isWordChar c = true) (hcs : Ends cs) :
    r.run (w ++ cs) = (r.word w).bind (·.run cs) := by
  rw [run, tokens_append hw, List.nil_append, tokens_of_ends hne hcs]
  rfl

theorem run_blank : r.run (' ' :: cs) = r.run cs := by
  rfl

theorem run_mark {c : Char} (hc : isWordChar c = false) (hblank : c ≠ ' ') :
    r.run (c :: cs) = (r.mark c).bind (·.run cs) := by
  rw [run, tokens, hc]
  simp only [hblank]
  rfl

section Mark

variable {phrase around after : Phrase} {parts : List Expr} {outer : List (Bracket × Phrase)}
  {e : Expr}

/-- A comma completes a part of a concatenation. -/
theorem mark_comma (he : phrase.whole = some e) :
    mark ⟨phrase, (.brace parts, around) :: outer⟩ ',' =
      some ⟨.terms none none 0 none, (.brace (parts ++ [e]), around) :: outer⟩ := by
  show (phrase.whole.bind fun e =>
    some (⟨_, (.brace (parts ++ [e]), around) :: outer⟩ : Reader)) = _
  rw [he]
  rfl

/-- A closing brace completes the last part. -/
theorem mark_brace (he : phrase.whole = some e)
    (hafter : around.take (.concat (parts ++ [e])) = some after) :
    mark ⟨phrase, (.brace parts, around) :: outer⟩ '\x7d' = some ⟨after, outer⟩ := by
  show (phrase.whole.bind fun e => (around.take (.concat (parts ++ [e]))).bind
    fun phrase => some (⟨phrase, outer⟩ : Reader)) = _
  rw [he, Option.bind_some, hafter]
  rfl

end Mark

end Reader

theorem isDigit_of_mem_toDigits {c : Char} {n : Nat} (hc : c ∈ Nat.toDigits 10 n) :
    c.isDigit = true :=
  Nat.isDigit_of_mem_toDigits (by decide) (by decide) hc

theorem number_toDigits (n : Nat) : number (Nat.toDigits 10 n) = some n := by
  rw [number, ← Nat.toList_repr, String.ofList_toList, Nat.toNat?_repr]

theorem isNameChar_of_isDigit {c : Char} (hc : c.isDigit = true) : isNameChar c = true := by
  simp [isNameChar, Char.isAlphanum, hc]

theorem isWordChar_of_isNameChar {c : Char} (hc : isNameChar c = true) : isWordChar c = true := by
  simp [isWordChar, hc]

theorem isNameChar_of_isName {c : Char} (h : isName cs = true) (hc : c ∈ cs) :
    isNameChar c = true := by
  unfold isName at h
  rw [Bool.and_eq_true, List.all_eq_true] at h
  exact h.1 c hc

theorem ne_nil_of_isName (h : isName cs = true) : cs ≠ [] := by
  rintro rfl
  simp [isName] at h

theorem isName_append (h : isName cs = true) (hw : ∀ c ∈ w, isNameChar c = true) :
    isName (cs ++ w) = true := by
  have hne := ne_nil_of_isName h
  unfold isName at h ⊢
  rw [Bool.and_eq_true] at h
  rw [List.all_append, h.1, List.head?_append_of_ne_nil _ hne, h.2]
  simpa using hw

theorem isName_numbered (h : isName name.toList = true) (i : Nat) :
    isName (name ++ i.repr).toList = true := by
  rw [String.toList_append, Nat.toList_repr]
  exact isName_append h fun c hc => isNameChar_of_isDigit (isDigit_of_mem_toDigits hc)

/-- The stages of what can be read can be read. -/
theorem isName_stageName (h : isName name.toList = true) (depth : Nat) :
    isName (Dataflow.stageName name depth).toList = true := by
  have hstage : Dataflow.stageName name depth = name ++ "_d" ++ depth.repr := by
    simp [Dataflow.stageName, toString]
  rw [hstage]
  refine isName_numbered ?_ depth
  rw [String.toList_append]
  exact isName_append h (List.all_eq_true.mp (by decide))

/-- What stands before the first character that does not belong to it, and what after it. -/
theorem span_append {p : Char → Bool} {c : Char} (cs : List Char) (hw : ∀ a ∈ w, p a = true)
    (hc : p c = false) :
    (w ++ c :: cs).takeWhile p = w ∧ (w ++ c :: cs).dropWhile p = c :: cs := by
  rw [List.takeWhile_append_of_pos hw, List.dropWhile_append_of_pos hw]
  simp [hc]

namespace Expr

theorem ofWord_ident (h : isName name.toList = true) : ofWord name.toList = some (.ident name) := by
  have hall : ∀ c ∈ name.toList, isNameChar c = true := fun c => isNameChar_of_isName h
  have hfirst : name.toList.takeWhile isNameChar = name.toList := List.takeWhile_eq_self_iff.mpr hall
  have hrest : name.toList.dropWhile isNameChar = [] := List.dropWhile_eq_nil_iff.mpr hall
  simp [ofWord, hfirst, hrest, h]

theorem ofWord_zero (width : Nat) :
    ofWord (Nat.toDigits 10 width ++ ['\'', 'b', '0']) = some (.zero width) := by
  have hdigits : ∀ c ∈ Nat.toDigits 10 width, isNameChar c = true :=
    fun c hc => isNameChar_of_isDigit (isDigit_of_mem_toDigits hc)
  obtain ⟨hfirst, hrest⟩ := span_append ['b', '0'] hdigits (show isNameChar '\'' = false by rfl)
  simp [ofWord, hfirst, hrest, number_toDigits]

theorem ofWord_select (h : isName name.toList = true) :
    ofWord (name.toList ++ '[' :: cs) = select name cs := by
  have hall : ∀ c ∈ name.toList, isNameChar c = true := fun c => isNameChar_of_isName h
  obtain ⟨hfirst, hrest⟩ := span_append cs hall (show isNameChar '[' = false by rfl)
  simp [ofWord, hfirst, hrest, h]

theorem select_bit (name : String) (position : Nat) :
    select name (Nat.toDigits 10 position ++ [']']) = some (.bit name position) := by
  obtain ⟨hfirst, hrest⟩ := span_append [] (fun c => @isDigit_of_mem_toDigits c position)
    (show Char.isDigit ']' = false by rfl)
  simp [select, hfirst, hrest, number_toDigits]

theorem select_slice (name : String) (high low : Nat) :
    select name (Nat.toDigits 10 high ++ ':' :: (Nat.toDigits 10 low ++ [']'])) =
      some (.slice name high low) := by
  obtain ⟨hhigh, hrest⟩ := span_append (Nat.toDigits 10 low ++ [']'])
    (fun c => @isDigit_of_mem_toDigits c high) (show Char.isDigit ':' = false by rfl)
  obtain ⟨hlow, hend⟩ := span_append [] (fun c => @isDigit_of_mem_toDigits c low)
    (show Char.isDigit ']' = false by rfl)
  simp [select, hhigh, hrest, hlow, hend, number_toDigits]

end Expr

/-! ## The characters of texts -/

namespace Expr

variable (e a b : Expr)

theorem toList_zero (width : Nat) :
    (zero width).text.toList = Nat.toDigits 10 width ++ ['\'', 'b', '0'] := by
  show (toString width ++ "'b0").toList = _
  simp only [toString, String.toList_append, Nat.toList_repr, ↓String.reduceToList]

theorem toList_bit (name : String) (position : Nat) : (bit name position).text.toList =
    name.toList ++ '[' :: (Nat.toDigits 10 position ++ [']']) := by
  show (toString name ++ "[" ++ toString position ++ "]").toList = _
  simp only [toString, String.toList_append, Nat.toList_repr, ↓String.reduceToList,
    List.append_assoc, List.cons_append, List.nil_append]

theorem toList_slice (name : String) (high low : Nat) : (slice name high low).text.toList =
    name.toList ++ '[' :: (Nat.toDigits 10 high ++ ':' :: (Nat.toDigits 10 low ++ [']'])) := by
  show (toString name ++ "[" ++ toString high ++ ":" ++ toString low ++ "]").toList = _
  simp only [toString, String.toList_append, Nat.toList_repr, ↓String.reduceToList,
    List.append_assoc, List.cons_append, List.nil_append]

theorem toList_not : (not e).text.toList = '~' :: e.text.toList := by
  show ("~" ++ e.text).toList = _
  simp only [String.toList_append, ↓String.reduceToList, List.cons_append, List.nil_append]

theorem toList_add : (add a b).text.toList =
    a.text.toList ++ ' ' :: '+' :: ' ' :: b.text.toList := by
  show (a.text ++ " + " ++ b.text).toList = _
  simp only [String.toList_append, ↓String.reduceToList, List.append_assoc, List.cons_append,
    List.nil_append]

theorem toList_mul : (mul a b).text.toList =
    a.text.toList ++ ' ' :: '*' :: ' ' :: b.text.toList := by
  show (a.text ++ " * " ++ b.text).toList = _
  simp only [String.toList_append, ↓String.reduceToList, List.append_assoc, List.cons_append,
    List.nil_append]

theorem toList_shiftLeft (places : Nat) : (shiftLeft e places).text.toList =
    '(' :: (e.text.toList ++ ' ' :: '<' :: '<' :: ' ' :: (Nat.toDigits 10 places ++ [')'])) := by
  show ("(" ++ e.text ++ (" << " ++ toString places ++ ")")).toList = _
  simp only [toString, String.toList_append, Nat.toList_repr, ↓String.reduceToList,
    List.cons_append, List.nil_append]

theorem toList_concat (parts : List Expr) : (concat parts).text.toList =
    '\x7b' :: ((", ".intercalate (texts parts)).toList ++ ['\x7d']) := by
  show ("\x7b" ++ ", ".intercalate (texts parts) ++ "\x7d").toList = _
  simp only [String.toList_append, ↓String.reduceToList, List.cons_append, List.nil_append]

end Expr

/-! ## Reading back -/

section Reading

variable {sum product : Option Expr} {complements : Nat} {outer : List (Bracket × Phrase)} {e : Expr}

open Reader

theorem run_operand (hw : ∀ c ∈ w, isWordChar c = true) (hword : Expr.ofWord w = some e)
    (hcs : Ends cs) : run ⟨.terms sum product complements none, outer⟩ (w ++ cs) =
      run ⟨.terms sum product 0 (some (Expr.not^[complements] e)), outer⟩ cs := by
  have hne : w ≠ [] := by
    rintro rfl
    simp [Expr.ofWord, isName] at hword
  rw [run_word hne hw hcs]
  simp [Reader.word, hword, Phrase.take]

/-- How a reader goes on with an expression, whatever comes after it. -/
def Reads : Level → Expr → Prop
  | .primary, e => ∀ sum product complements outer cs, Ends cs →
    run ⟨.terms sum product complements none, outer⟩ (e.text.toList ++ cs) =
      run ⟨.terms sum product 0 (some (Expr.not^[complements] e)), outer⟩ cs
  | .product, e => ∀ sum outer cs, Ends cs → ∃ product f, times product f = e ∧
    run ⟨.terms sum none 0 none, outer⟩ (e.text.toList ++ cs) =
      run ⟨.terms sum product 0 (some f), outer⟩ cs
  | .sum, e => ∀ outer cs, Ends cs → ∃ sum product f, plus sum (times product f) = e ∧
    run ⟨.terms none none 0 none, outer⟩ (e.text.toList ++ cs) =
      run ⟨.terms sum product 0 (some f), outer⟩ cs

theorem reads_word {w : List Char} (htext : e.text.toList = w)
    (hw : ∀ c ∈ w, isWordChar c = true) (hword : Expr.ofWord w = some e) : Reads .primary e := by
  intro sum product complements outer cs hcs
  rw [htext, run_operand hw hword hcs]

theorem reads_ident {name : String} (h : isName name.toList = true) :
    Reads .primary (.ident name) :=
  reads_word rfl (fun _ hc => isWordChar_of_isNameChar (isNameChar_of_isName h hc))
    (Expr.ofWord_ident h)

theorem reads_zero (width : Nat) : Reads .primary (.zero width) := by
  apply reads_word (w := Nat.toDigits 10 width ++ ['\'', 'b', '0'])
  · exact Expr.toList_zero width
  · intro c hc
    rcases List.mem_append.mp hc with hdigit | hmark
    · exact isWordChar_of_isNameChar (isNameChar_of_isDigit (isDigit_of_mem_toDigits hdigit))
    · simp only [List.mem_cons, List.not_mem_nil, or_false] at hmark
      rcases hmark with rfl | rfl | rfl <;> rfl
  · exact Expr.ofWord_zero width

theorem reads_bit {name : String} (h : isName name.toList = true) (position : Nat) :
    Reads .primary (.bit name position) := by
  apply reads_word (w := name.toList ++ '[' :: (Nat.toDigits 10 position ++ [']']))
  · exact Expr.toList_bit name position
  · intro c hc
    simp only [List.mem_append, List.mem_cons, List.not_mem_nil, or_false] at hc
    rcases hc with hname | rfl | hdigit | rfl
    · exact isWordChar_of_isNameChar (isNameChar_of_isName h hname)
    · rfl
    · exact isWordChar_of_isNameChar (isNameChar_of_isDigit (isDigit_of_mem_toDigits hdigit))
    · rfl
  · rw [Expr.ofWord_select h, Expr.select_bit]

theorem reads_slice {name : String} (h : isName name.toList = true) (high low : Nat) :
    Reads .primary (.slice name high low) := by
  apply reads_word (w := name.toList ++
    '[' :: (Nat.toDigits 10 high ++ ':' :: (Nat.toDigits 10 low ++ [']'])))
  · exact Expr.toList_slice name high low
  · intro c hc
    simp only [List.mem_append, List.mem_cons, List.not_mem_nil, or_false] at hc
    rcases hc with hname | rfl | hdigit | rfl | hdigit | rfl
    · exact isWordChar_of_isNameChar (isNameChar_of_isName h hname)
    · rfl
    · exact isWordChar_of_isNameChar (isNameChar_of_isDigit (isDigit_of_mem_toDigits hdigit))
    · rfl
    · exact isWordChar_of_isNameChar (isNameChar_of_isDigit (isDigit_of_mem_toDigits hdigit))
    · rfl
  · rw [Expr.ofWord_select h, Expr.select_slice]

theorem Reads.not (h : Reads .primary e) : Reads .primary (.not e) := by
  intro sum product complements outer cs hcs
  rw [Expr.toList_not, List.cons_append, run_mark (by rfl) (by decide)]
  exact h sum product (complements + 1) outer cs hcs

theorem Reads.shiftLeft (h : Reads .sum e) (places : Nat) : Reads .primary (.shiftLeft e places) := by
  intro sum product complements outer cs hcs
  have htext : (Expr.shiftLeft e places).text.toList ++ cs =
      '(' :: (e.text.toList ++ ' ' :: (['<', '<'] ++ ' ' :: (Nat.toDigits 10 places ++ ')' :: cs))) := by
    simp [Expr.toList_shiftLeft]
  have hdigits : ∀ c ∈ Nat.toDigits 10 places, isWordChar c = true := fun c hc =>
    isWordChar_of_isNameChar (isNameChar_of_isDigit (isDigit_of_mem_toDigits hc))
  rw [htext, run_mark (by rfl) (by decide)]
  obtain ⟨sum', product', f, he, hrun⟩ := h ((.parenthesis, .terms sum product complements none) :: outer)
    (' ' :: (['<', '<'] ++ ' ' :: (Nat.toDigits 10 places ++ ')' :: cs))) (ends_cons (by rfl))
  show run ⟨.terms none none 0 none, _⟩ _ = _
  rw [hrun, run_blank, run_word (by decide) (List.all_eq_true.mp (by decide)) (ends_cons (by rfl))]
  simp only [word, he, if_true, Option.bind_some]
  rw [run_blank, run_word (by simp) hdigits (ends_cons (by rfl))]
  simp only [word, number_toDigits, Option.pure_def, Option.bind_eq_bind, Option.bind_some]
  exact run_mark (by rfl) (by decide)

/-- The parts of a concatenation, after those that were read already. -/
theorem run_parts {parts : List Expr} (hne : parts ≠ []) (hparts : ∀ e ∈ parts, Reads .sum e)
    (done : List Expr) :
    run ⟨.terms none none 0 none, (.brace done, .terms sum product complements none) :: outer⟩
      ((", ".intercalate (Expr.texts parts)).toList ++ '\x7d' :: cs) =
    run ⟨.terms sum product 0 (some (Expr.not^[complements] (.concat (done ++ parts)))), outer⟩ cs := by
  induction parts generalizing done with
  | nil => exact absurd rfl hne
  | cons e parts ih =>
      have hfirst := hparts e List.mem_cons_self
      cases parts with
      | nil =>
          obtain ⟨sum', product', f, he, hrun⟩ := hfirst
            ((.brace done, .terms sum product complements none) :: outer) ('\x7d' :: cs)
            (ends_cons (by rfl))
          have hwhole : (Phrase.terms sum' product' 0 (some f)).whole = some e := congrArg some he
          simp only [Expr.texts, String.intercalate_singleton]
          rw [hrun, run_mark (by rfl) (by decide), mark_brace hwhole rfl]
          rfl
      | cons e' parts =>
          obtain ⟨sum', product', f, he, hrun⟩ := hfirst
            ((.brace done, .terms sum product complements none) :: outer)
            (',' :: ' ' :: ((", ".intercalate (Expr.texts (e' :: parts))).toList ++ '\x7d' :: cs))
            (ends_cons (by rfl))
          have hrest := ih (by simp) (fun e he => hparts e (List.mem_cons_of_mem _ he)) (done ++ [e])
          rw [List.append_assoc, List.singleton_append] at hrest
          simp only [Expr.texts, String.intercalate_cons_cons, String.toList_append,
            List.append_assoc] at hrun hrest ⊢
          refine (hrun.trans ?_).trans hrest
          have hwhole : (Phrase.terms sum' product' 0 (some f)).whole = some e := congrArg some he
          rw [run_mark (by rfl) (by decide), mark_comma hwhole, Option.bind_some, run_blank]

theorem Reads.concat {parts : List Expr} (hne : parts ≠ []) (hparts : ∀ e ∈ parts, Reads .sum e) :
    Reads .primary (.concat parts) := by
  intro sum product complements outer cs hcs
  have htext : (Expr.concat parts).text.toList ++ cs =
      '\x7b' :: ((", ".intercalate (Expr.texts parts)).toList ++ '\x7d' :: cs) := by
    simp [Expr.toList_concat]
  rw [htext, run_mark (by rfl) (by decide)]
  exact run_parts hne hparts []

theorem Reads.mul {a b : Expr} (ha : Reads .product a) (hb : Reads .primary b) :
    Reads .product (.mul a b) := by
  intro sum outer cs hcs
  have htext : (Expr.mul a b).text.toList ++ cs =
      a.text.toList ++ ' ' :: '*' :: ' ' :: (b.text.toList ++ cs) := by
    simp [Expr.toList_mul]
  obtain ⟨product, f, rfl, hrun⟩ := ha sum outer (' ' :: '*' :: ' ' :: (b.text.toList ++ cs))
    (ends_cons (by rfl))
  refine ⟨some (times product f), b, rfl, ?_⟩
  rw [htext, hrun, run_blank, run_mark (by rfl) (by decide)]
  show run ⟨.terms sum (some (times product f)) 0 none, outer⟩ (' ' :: _) = _
  rw [run_blank]
  exact hb sum _ 0 outer cs hcs

theorem Reads.add {a b : Expr} (ha : Reads .sum a) (hb : Reads .product b) :
    Reads .sum (.add a b) := by
  intro outer cs hcs
  have htext : (Expr.add a b).text.toList ++ cs =
      a.text.toList ++ ' ' :: '+' :: ' ' :: (b.text.toList ++ cs) := by
    simp [Expr.toList_add]
  obtain ⟨sum, product, f, rfl, hrun⟩ := ha outer (' ' :: '+' :: ' ' :: (b.text.toList ++ cs))
    (ends_cons (by rfl))
  obtain ⟨product', f', rfl, hlast⟩ := hb (some (plus sum (times product f))) outer cs hcs
  refine ⟨some (plus sum (times product f)), product', f', rfl, ?_⟩
  rw [htext, hrun, run_blank, run_mark (by rfl) (by decide)]
  show run ⟨.terms (some (plus sum (times product f))) none 0 none, outer⟩ (' ' :: _) = _
  rw [run_blank]
  exact hlast

theorem Legible.reads {level : Level} (h : Legible level e) : Reads level e := by
  induction h with
  | ident named => exact reads_ident named
  | zero width => exact reads_zero width
  | slice named high low => exact reads_slice named high low
  | bit named position => exact reads_bit named position
  | not operand ih => exact ih.not
  | shiftLeft operand places ih => exact ih.shiftLeft places
  | concat nonempty legible ih => exact Reads.concat nonempty ih
  | mul left right ihleft ihright => exact ihleft.mul ihright
  | add left right ihleft ihright => exact ihleft.add ihright
  | factor primary ih => exact fun sum outer cs hcs => ⟨none, _, rfl, ih sum none 0 outer cs hcs⟩
  | term product ih =>
      intro outer cs hcs
      obtain ⟨product, f, he, hrun⟩ := ih none outer cs hcs
      exact ⟨none, product, f, he, hrun⟩

/-- An expression is read back from its text. -/
theorem Legible.read_text (h : Legible .sum e) : Expr.read e.text = some e := by
  obtain ⟨sum, product, f, he, hrun⟩ := h.reads [] [] ends_nil
  have hread : Reader.run {} e.text.toList = some ⟨.terms sum product 0 (some f), []⟩ := by
    rw [← List.append_nil e.text.toList, hrun]
    rfl
  simp [Expr.read, hread, Phrase.whole, he]

end Reading

end Retime.Verilog

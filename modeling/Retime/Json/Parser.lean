import Retime.Json.Basic

/-! # Reading JSON text

`Json.parse?` accepts exactly the texts of the standard grammar: one value
between blanks, no comments, no comma after the last item, no control characters
and no lone surrogates in strings.

Each reader returns what it read together with the rest of the text, which is
shorter; the recursion ends for that reason.
-/

namespace Retime.Json

/-- What is left of `s` after something was read from it. -/
abbrev Rest (s : List Char) : Type :=
  { r : List Char // r.length < s.length }

/-- Blank, tab, line feed and carriage return. -/
def isBlank (c : Char) : Bool :=
  c = ' ' || c = '\t' || c = '\n' || c = '\r'

/-- Drops the blanks in front. -/
def skipBlanks : (s : List Char) → { r : List Char // r.length ≤ s.length }
  | [] => ⟨[], Nat.le_refl _⟩
  | c :: s =>
    if isBlank c then
      let ⟨r, h⟩ := skipBlanks s
      ⟨r, Nat.le_succ_of_le h⟩
    else ⟨c :: s, Nat.le_refl _⟩

def hexDigit? (c : Char) : Option Nat :=
  if c.isDigit then some (c.toNat - '0'.toNat)
  else if 'a' ≤ c ∧ c ≤ 'f' then some (c.toNat - 'a'.toNat + 10)
  else if 'A' ≤ c ∧ c ≤ 'F' then some (c.toNat - 'A'.toNat + 10)
  else none

/-- A 16-bit unit, given by four hexadecimal digits. -/
def unit? (a b c d : Char) : Option Nat := do
  let a ← hexDigit? a
  let b ← hexDigit? b
  let c ← hexDigit? c
  let d ← hexDigit? d
  return ((a * 16 + b) * 16 + c) * 16 + d

/-- The character that a letter stands for after a backslash. -/
def escaped? : Char → Option Char
  | '"' => some '"'
  | '\\' => some '\\'
  | '/' => some '/'
  | 'b' => some '\x08'
  | 'f' => some '\x0c'
  | 'n' => some '\n'
  | 'r' => some '\r'
  | 't' => some '\t'
  | _ => none

/-- Reads what follows a backslash: a letter, or one or two units that make a character. -/
def readEscape? : (s : List Char) → Option (Char × Rest s)
  | 'u' :: a :: b :: c :: d :: '\\' :: 'u' :: e :: f :: g :: h :: s => do
    let high ← unit? a b c d
    if 0xD800 ≤ high ∧ high < 0xDC00 then
      let low ← unit? e f g h
      if 0xDC00 ≤ low ∧ low < 0xE000 then
        let code := 0x10000 + (high - 0xD800) * 0x400 + (low - 0xDC00)
        some (Char.ofNat code, ⟨s, Nat.lt_add_of_pos_right (Nat.succ_pos 10)⟩)
      else none
    else if 0xDC00 ≤ high ∧ high < 0xE000 then none
    else
      let rest := '\\' :: 'u' :: e :: f :: g :: h :: s
      some (Char.ofNat high, ⟨rest, Nat.lt_add_of_pos_right (Nat.succ_pos 4)⟩)
  | 'u' :: a :: b :: c :: d :: s => do
    let unit ← unit? a b c d
    if 0xD800 ≤ unit ∧ unit < 0xE000 then none
    else some (Char.ofNat unit, ⟨s, Nat.lt_add_of_pos_right (Nat.succ_pos 4)⟩)
  | c :: s => (escaped? c).map fun c => (c, ⟨s, Nat.lt_succ_self s.length⟩)
  | [] => none

/-- Reads a string up to its closing quote; the opening one is behind. -/
def readString? (s : List Char) : Option (List Char × Rest s) :=
  match s with
  | [] => none
  | '"' :: s => some ([], ⟨s, by simp⟩)
  | '\\' :: s => do
    let (c, ⟨r, h⟩) ← readEscape? s
    let (cs, ⟨r', h'⟩) ← readString? r
    some (c :: cs, ⟨r', by simp only [List.length_cons]; omega⟩)
  | c :: s =>
    if c.toNat < 0x20 then none
    else do
      let (cs, ⟨r, h⟩) ← readString? s
      some (c :: cs, ⟨r, by simp only [List.length_cons]; omega⟩)
termination_by s.length

/-- The characters a number is made of. -/
def isNumberChar (c : Char) : Bool :=
  c.isDigit || c = '-' || c = '+' || c = '.' || c = 'e' || c = 'E'

/-- Splits off the longest run of characters a number is made of. -/
def splitNumber : (s : List Char) → List Char × { r : List Char // r.length ≤ s.length }
  | [] => ([], ⟨[], Nat.le_refl _⟩)
  | c :: s =>
    if isNumberChar c then
      let (ds, ⟨r, h⟩) := splitNumber s
      (c :: ds, ⟨r, Nat.le_succ_of_le h⟩)
    else ([], ⟨c :: s, Nat.le_refl _⟩)

/-- What comes after the character `c`, if that stands first. -/
def after? (c : Char) : (s : List Char) → Option (Rest s)
  | [] => none
  | d :: s => if c = d then some ⟨s, Nat.lt_succ_self s.length⟩ else none

/-- Reads a key, its colon and the blanks around that. -/
def readKey? (s : List Char) : Option (String × Rest s) :=
  match s with
  | '"' :: s => do
    let (key, ⟨r, h⟩) ← readString? s
    let ⟨r, h'⟩ := skipBlanks r
    match r, h' with
    | ':' :: r, h' =>
      let ⟨r, hskip⟩ := skipBlanks r
      some (String.ofList key, ⟨r, by simp only [List.length_cons] at *; omega⟩)
    | _, _ => none
  | _ => none

mutual

/-- Reads a value; no blanks stand before it. -/
def readValue? (s : List Char) : Option (Json × Rest s) :=
  match s with
  | 'n' :: 'u' :: 'l' :: 'l' :: s =>
    some (null, ⟨s, by simp only [List.length_cons]; omega⟩)
  | 't' :: 'r' :: 'u' :: 'e' :: s =>
    some (bool true, ⟨s, by simp only [List.length_cons]; omega⟩)
  | 'f' :: 'a' :: 'l' :: 's' :: 'e' :: s =>
    some (bool false, ⟨s, by simp only [List.length_cons]; omega⟩)
  | '"' :: s => do
    let (cs, ⟨r, h⟩) ← readString? s
    some (string (String.ofList cs), ⟨r, by simp only [List.length_cons]; omega⟩)
  | '[' :: s =>
    let ⟨r, h⟩ := skipBlanks s
    match after? ']' r with
    | some ⟨r', h'⟩ => some (array [], ⟨r', by simp only [List.length_cons]; omega⟩)
    | none => do
      have : r.length < s.length + 1 := Nat.lt_succ_of_le h
      let (items, ⟨r', h'⟩) ← readItems? r
      some (array items, ⟨r', by simp only [List.length_cons]; omega⟩)
  | '\x7b' :: s =>
    let ⟨r, h⟩ := skipBlanks s
    match after? '\x7d' r with
    | some ⟨r', h'⟩ => some (object [], ⟨r', by simp only [List.length_cons]; omega⟩)
    | none => do
      have : r.length < s.length + 1 := Nat.lt_succ_of_le h
      let (members, ⟨r', h'⟩) ← readMembers? r
      some (object members, ⟨r', by simp only [List.length_cons]; omega⟩)
  | c :: s =>
    if isNumberChar c then do
      let (ds, ⟨r, h⟩) := splitNumber s
      let n ← Numeral.strict? (c :: ds)
      some (number n, ⟨r, by simp only [List.length_cons]; omega⟩)
    else none
  | [] => none
termination_by 2 * s.length

/-- Reads the items of an array up to its end. -/
def readItems? (s : List Char) : Option (List Json × Rest s) := do
  let (item, ⟨r, h⟩) ← readValue? s
  let ⟨r, h'⟩ := skipBlanks r
  match after? ']' r, after? ',' r with
  | some ⟨r', hend⟩, _ => some ([item], ⟨r', by omega⟩)
  | none, some ⟨r', hcomma⟩ => do
    let ⟨r', hskip⟩ := skipBlanks r'
    have : r'.length < s.length := by omega
    let (items, ⟨r'', hitems⟩) ← readItems? r'
    some (item :: items, ⟨r'', by omega⟩)
  | none, none => none
termination_by 2 * s.length + 1

/-- Reads the members of an object up to its end. -/
def readMembers? (s : List Char) : Option (List (String × Json) × Rest s) := do
  let (key, ⟨r, hkey⟩) ← readKey? s
  let (value, ⟨r, h⟩) ← readValue? r
  let ⟨r, h'⟩ := skipBlanks r
  match after? '\x7d' r, after? ',' r with
  | some ⟨r', hend⟩, _ => some ([(key, value)], ⟨r', by omega⟩)
  | none, some ⟨r', hcomma⟩ => do
    let ⟨r', hskip⟩ := skipBlanks r'
    have : r'.length < s.length := by omega
    let (members, ⟨r'', hmembers⟩) ← readMembers? r'
    some ((key, value) :: members, ⟨r'', by omega⟩)
  | none, none => none
termination_by 2 * s.length + 1

end

/-- Reads a text that holds one value. -/
def parse? (text : String) : Option Json := do
  let (value, ⟨rest, _⟩) ← readValue? (skipBlanks text.toList).1
  if rest.all isBlank then some value else none

end Retime.Json

/-! # Lines

Splitting a text into lines and indenting them. A line ends at a line feed, which
takes one carriage return before it along; no empty line follows the last end.
-/

namespace Retime.Text

/-- The lines of a text, without their ends. -/
def lines : List Char → List (List Char)
  | [] => []
  | '\n' :: s => [] :: lines s
  | '\r' :: '\n' :: s => [] :: lines s
  | c :: s =>
    match lines s with
    | [] => [[c]]
    | l :: ls => (c :: l) :: ls

/-- Puts `width` blanks before every line that is not empty. -/
def indent (width : Nat) (s : String) : String :=
  let pad := fun l : List Char => if l.isEmpty then l else List.replicate width ' ' ++ l
  "\n".intercalate ((lines s.toList).map fun l => String.ofList (pad l))

end Retime.Text

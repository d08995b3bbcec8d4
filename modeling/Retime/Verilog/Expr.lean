/-! # Expressions

The expressions that the built-in kinds are made of. Operators take the text of an
expression as it is.
-/

namespace Retime.Verilog

inductive Expr where
  /-- An identifier, or a select of one that is spelled out already. -/
  | ident (text : String)
  /-- A constant whose bits are all zero. -/
  | zero (width : Nat)
  /-- The bits of an identifier from `high` down to `low`. -/
  | slice (name : String) (high low : Nat)
  | bit (name : String) (position : Nat)
  | not (e : Expr)
  | add (a b : Expr)
  | mul (a b : Expr)
  | shiftLeft (e : Expr) (places : Nat)
  /-- Concatenation, the most significant part first. -/
  | concat (parts : List Expr)

namespace Expr

mutual

def text : Expr → String
  | ident text => text
  | zero width => s!"{width}'b0"
  | slice name high low => s!"{name}[{high}:{low}]"
  | bit name position => s!"{name}[{position}]"
  | not e => "~" ++ e.text
  | add a b => a.text ++ " + " ++ b.text
  | mul a b => a.text ++ " * " ++ b.text
  | shiftLeft e places => "(" ++ e.text ++ s!" << {places})"
  | concat parts => "\x7b" ++ ", ".intercalate (texts parts) ++ "\x7d"

def texts : List Expr → List String
  | [] => []
  | e :: es => e.text :: texts es

end

end Expr

end Retime.Verilog

import Retime.Fault

/-! # Modules

The part of Verilog that operators are written in. Expressions and identifiers are
kept as text.
-/

namespace Retime.Verilog

structure PortDeclaration where
  direction : Direction
  width : Nat
  name : String
deriving DecidableEq, Repr

inductive NetKind where
  | wire
  | reg
deriving DecidableEq, Repr

structure NetDeclaration where
  kind : NetKind
  width : Nat
  name : String
deriving DecidableEq, Repr

/-- A continuous assignment. -/
structure Assign where
  target : String
  value : String
deriving DecidableEq, Repr

/-- A copy of another module; a port without an expression is left open. -/
structure Copy where
  moduleName : String
  name : String
  connections : List (String × Option String)
deriving DecidableEq, Repr

inductive Statement where
  | nonblocking (target value : String)
  | conditional (condition : String) (yes no : List Statement)

inductive Item where
  | nets (declarations : List NetDeclaration)
  | assigns (assignments : List Assign)
  | copy (c : Copy)
  /-- Statements that are executed at an event. -/
  | always (event : String) (body : List Statement)
  /-- Items below a comment of one line. -/
  | commented (comment : String) (items : List Item)

structure Module where
  name : String
  ports : List PortDeclaration
  items : List Item

end Retime.Verilog

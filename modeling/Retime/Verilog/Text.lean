import Retime.Text.Lines
import Retime.Verilog.Module

/-! # The text of modules

What stands inside a module header, a block or a branch is indented by four blanks
for each of them; items are separated by empty lines.
-/

namespace Retime.Verilog

/-- Puts lines inside a block. -/
def inset (lines : List String) : String :=
  Text.indent 4 ("\n".intercalate lines)

/-- The range of a net of that width; a single bit has none. -/
def rangeText (width : Nat) : String :=
  if 1 < width then s!"[{width - 1}:0] " else ""

def PortDeclaration.text (p : PortDeclaration) : String :=
  p.direction.text ++ " wire " ++ rangeText p.width ++ p.name

def NetKind.text : NetKind → String
  | wire => "wire"
  | reg => "reg"

def NetDeclaration.text (n : NetDeclaration) : String :=
  n.kind.text ++ " " ++ rangeText n.width ++ n.name ++ ";"

def Assign.text (a : Assign) : String :=
  s!"assign {a.target} = {a.value};"

/-- The connection of one port. -/
def connectionText (port : String) (value : Option String) : String :=
  s!"    .{port}(" ++ value.getD "" ++ ")"

def Copy.text (c : Copy) : String :=
  s!"{c.moduleName} {c.name} (\n"
    ++ ",\n".intercalate (c.connections.map fun (port, value) => connectionText port value)
    ++ "\n);"

/-- The branches of a conditional; an empty second one is left out. -/
def conditionalText (condition : String) (yes no : List String) : String :=
  let first := s!"if ({condition}) begin\n" ++ inset yes ++ "\nend"
  if no.isEmpty then first else first ++ " else begin\n" ++ inset no ++ "\nend"

mutual

def Statement.text : Statement → String
  | .nonblocking target value => s!"{target} <= {value};"
  | .conditional condition yes no =>
    conditionalText condition (Statement.texts yes) (Statement.texts no)

def Statement.texts : List Statement → List String
  | [] => []
  | s :: ss => s.text :: Statement.texts ss

end

mutual

def Item.text : Item → String
  | .nets declarations => "\n".intercalate (declarations.map (·.text))
  | .assigns assignments => "\n".intercalate (assignments.map (·.text))
  | .copy c => c.text
  | .always event body => s!"{event} begin\n" ++ inset (Statement.texts body) ++ "\nend"
  | .commented comment items => s!"// {comment}\n" ++ "\n".intercalate (Item.texts items)

def Item.texts : List Item → List String
  | [] => []
  | i :: is => i.text :: Item.texts is

end

def Module.text (m : Module) : String :=
  s!"module {m.name} (\n"
    ++ Text.indent 4 (",\n".intercalate (m.ports.map (·.text))) ++ "\n);\n"
    ++ String.join ((Item.texts m.items).map fun item => "\n" ++ item ++ "\n")
    ++ "\nendmodule\n"

end Retime.Verilog

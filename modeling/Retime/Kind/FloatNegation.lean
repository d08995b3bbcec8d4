import Retime.Design
import Retime.Verilog.Expr

/-! # Negation of floating-point words -/

namespace Retime.Kind

open Build Verilog

/-- Flips the sign of a floating-point word and leaves its other fields. -/
def floatNegation (exponent fraction : Nat) : Kind where
  name := s!"FpNegate_{exponent}_{fraction}"
  design device := Build.design do
    let width := Width.float exponent fraction
    let field f := ask (.consumeField "X" f)
    call (.input "X" width)
    accrue device.lutDelay
    let exc ← field .exception
    let sign ← field .sign
    let exp ← field .exponent
    let frac ← field .fraction
    let negated := Expr.concat [.ident exc, .not (.ident sign), .ident exp, .ident frac]
    call (.output "R" width negated.text)

end Retime.Kind

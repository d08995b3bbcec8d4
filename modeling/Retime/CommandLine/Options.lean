import Retime.Kind.Builtin
import Retime.Decimal.Numeral

/-! # Options

What a command line asks for. The arguments are read from left to right and the
first mistake ends the reading, as does a request for help or the version. An
option is written `--name value` or `--name=value`, the output directory also
`-o value`, `-ovalue` or `-o=value`. After `--` nothing is an option.
-/

namespace Retime.CommandLine

/-- What is written to the output directory. -/
inductive Stage where
  /-- The modules. -/
  | verilog
  /-- The chart. -/
  | timing
  | manifest
deriving DecidableEq, Repr

namespace Stage

def name : Stage → String
  | verilog => "verilog"
  | timing => "timing"
  | manifest => "manifest"

def ofName? (name : String) : Option Stage :=
  [verilog, timing, manifest].find? (·.name = name)

end Stage

structure Options where
  sizes : Sizes := {}
  /-- The file that the settings are read from. -/
  config : Option String := none
  /-- A frequency in place of that of the settings. -/
  frequencyMhz : Option Float := none
  notPipelined : Bool := false
  emit : Stage := .verilog
  /-- The output directory. -/
  output : String := "."
  verbose : Bool := false
deriving DecidableEq

/-- What the program is asked to do. -/
inductive Command where
  | generate (family : Family) (options : Options)
  | showHelp
  | showVersion
  | misuse
deriving DecidableEq

/-- The names of options. -/
inductive OptionName where
  | width
  | count
  | we
  | wf
  | config
  | frequencyMhz
  | notPipelined
  | emit
  | output
  | verbose
  | help
  | version
deriving DecidableEq, Repr

namespace OptionName

def all : List OptionName :=
  [width, count, we, wf, config, frequencyMhz, notPipelined, emit, output, verbose, help, version]

def long : OptionName → String
  | width => "--width"
  | count => "--count"
  | we => "--we"
  | wf => "--wf"
  | config => "--config"
  | frequencyMhz => "--frequency-mhz"
  | notPipelined => "--not-pipelined"
  | emit => "--emit"
  | output => "--output"
  | verbose => "--verbose"
  | help => "--help"
  | version => "--version"

def short? : OptionName → Option Char
  | output => some 'o'
  | help => some 'h'
  | version => some 'V'
  | _ => none

def takesValue : OptionName → Bool
  | notPipelined | verbose | help | version => false
  | _ => true

end OptionName

/-- A number of 32 bits: digits, and possibly a sign, that of zero included. -/
def word? (s : String) : Option Nat :=
  let (negative, ds) := Numeral.splitSign s.toList
  let n := Numeral.digitsValue ds
  if Numeral.IsDigits ds ∧ n < Nat.pow 2 32 ∧ (negative → n = 0) then some n else none

/-- A number with an optional sign, or a spelling of infinity or of no number in
letters of either case. -/
def float? (s : String) : Option Float :=
  let (negative, body) := Numeral.splitSign s.toList
  let magnitude : Option Float :=
    match String.ofList (body.map Char.toLower) with
    | "inf" | "infinity" => some (1 / 0)
    | "nan" => some (0 / 0)
    | _ => (Numeral.unsigned? body).map Numeral.nearest
  magnitude.map fun x => if negative then -x else x

def path? (s : String) : Option String :=
  if s.isEmpty then none else some s

namespace Options

/-- Sets an option that takes a value; nothing if it cannot have that value. -/
def set? (o : Options) (name : OptionName) (value : String) : Option Options :=
  match name with
  | .width => (word? value).map fun width => { o with sizes := { o.sizes with width } }
  | .count => (word? value).map fun count => { o with sizes := { o.sizes with count } }
  | .we => (word? value).map fun exponent => { o with sizes := { o.sizes with exponent } }
  | .wf => (word? value).map fun fraction => { o with sizes := { o.sizes with fraction } }
  | .config => (path? value).map fun path => { o with config := some path }
  | .frequencyMhz => (float? value).map fun x => { o with frequencyMhz := some x }
  | .emit => (Stage.ofName? value).map fun emit => { o with emit }
  | .output => (path? value).map fun output => { o with output }
  | _ => none

/-- Sets an option without a value. -/
def turnOn (o : Options) : OptionName → Options
  | .notPipelined => { o with notPipelined := true }
  | .verbose => { o with verbose := true }
  | _ => o

end Options

/-- What was read from the arguments so far. -/
structure Draft where
  family : Option Family := none
  options : Options := {}
  /-- The options given so far; none is given twice. -/
  given : List OptionName := []

namespace Draft

def withOption? (d : Draft) (name : OptionName) (value : String) : Option Draft :=
  if name ∈ d.given then none
  else (d.options.set? name value).map fun options =>
    { d with options, given := name :: d.given }

def withFlag? (d : Draft) (name : OptionName) : Option Draft :=
  if name ∈ d.given then none
  else some { d with options := d.options.turnOn name, given := name :: d.given }

/-- The only argument that is no option is the name of a family. -/
def withOperand? (d : Draft) (name : String) : Option Draft :=
  match d.family with
  | some _ => none
  | none => (Family.ofName? name).map fun family => { d with family }

def command (d : Draft) : Command :=
  match d.family with
  | some family => .generate family d.options
  | none => .misuse

end Draft

/-- An argument by its form. -/
inductive Argument where
  | endOfOptions
  /-- An option by its long name, with the value that is attached to it. -/
  | long (name : String) (value : Option String)
  /-- An option by its letter, with what follows the letter. -/
  | short (letter : Char) (rest : String)
  | operand (text : String)

/-- The form of an argument. A dash alone is an operand. -/
def Argument.ofString (arg : String) : Argument :=
  match arg.toList with
  | ['-', '-'] => endOfOptions
  | '-' :: '-' :: body =>
    match body.dropWhile (· ≠ '=') with
    | [] => long arg none
    | _ :: value =>
      long (String.ofList ('-' :: '-' :: body.takeWhile (· ≠ '='))) (some (String.ofList value))
  | '-' :: letter :: rest => short letter (String.ofList rest)
  | _ => operand arg

/-- The value that is attached to an option by its letter. -/
def attachedValue? (rest : String) : Option String :=
  match rest.toList with
  | [] => none
  | '=' :: value => some (String.ofList value)
  | _ => some rest

/-- Reads arguments none of which is an option. -/
def readOperands (d : Draft) : List String → Command
  | [] => d.command
  | arg :: args =>
    match d.withOperand? arg with
    | some d => readOperands d args
    | none => .misuse

/-- Reads arguments. -/
def readArguments (d : Draft) : List String → Command
  | [] => d.command
  | arg :: args =>
    match Argument.ofString arg with
    | .endOfOptions => readOperands d args
    | .operand text =>
      match d.withOperand? text with
      | some d => readArguments d args
      | none => .misuse
    | .long text value =>
      match OptionName.all.find? (·.long = text) with
      | some name => readOption d name value args
      | none => .misuse
    | .short letter rest =>
      match OptionName.all.find? (·.short? = some letter) with
      | some name =>
        readOption d name (if name.takesValue then attachedValue? rest else none) args
      | none => .misuse
where
  /-- Goes on after an option; a value that is not attached is the next argument. -/
  readOption (d : Draft) (name : OptionName) (value : Option String) (args : List String) :
      Command :=
    match name, value with
    | .help, none => .showHelp
    | .version, none => .showVersion
    | name, some value =>
      match if name.takesValue then d.withOption? name value else none with
      | some d => readArguments d args
      | none => .misuse
    | name, none =>
      if name.takesValue then
        match args with
        | [] => .misuse
        | value :: args =>
          match Argument.ofString value, d.withOption? name value with
          | .operand _, some d => readArguments d args
          | _, _ => .misuse
      else
        match d.withFlag? name with
        | some d => readArguments d args
        | none => .misuse

/-- What the arguments after the name of the program ask for. -/
def Command.ofArguments (args : List String) : Command :=
  readArguments {} args

end Retime.CommandLine

/-!
# Command-line arguments

A command is asked for by its name, followed by its operands and options in any order. An option
is written in full behind two dashes or by a letter behind one; its value stands in the same
argument or in the next one. Letters without a value can share a dash. Behind `--` there are
operands only.
-/

namespace SchemaGraph

/-- An option that a command takes. -/
structure OptionSpec where
  name : String
  letter : Option Char
  hasValue : Bool
  deriving DecidableEq, Repr

/-- Arguments sorted into options and operands, latest first. -/
structure Arguments where
  options : List (String × String) := []
  operands : List String := []
  deriving DecidableEq, Repr

namespace Arguments

/-- The value of an option. -/
def value? (a : Arguments) (name : String) : Option String :=
  a.options.lookup name

/-- Whether an option is given. -/
def has (a : Arguments) (name : String) : Bool :=
  (a.value? name).isSome

/-- Record an option; it must not be given before, unless it may be repeated. -/
def addOption (a : Arguments) (spec : OptionSpec) (value : String) : Option Arguments :=
  if a.has spec.name && spec.name != "verbose" then none
  else some { a with options := (spec.name, value) :: a.options }

/-- Record an operand. -/
def addOperand (a : Arguments) (operand : String) : Arguments :=
  { a with operands := operand :: a.operands }

/-- Whether an argument can be a value or an operand: it is no option. -/
def isPlain (argument : String) : Bool :=
  argument = "-" || !"-".isPrefixOf argument

/-- Take the value of an option from the arguments that follow. -/
def takeValue (a : Arguments) (spec : OptionSpec) :
    List String → Option (Arguments × List String)
  | [] => none
  | value :: rest =>
    if isPlain value then (a.addOption spec value).map (·, rest) else none

/-- Sort letters that share a dash. -/
def addLetters (specs : List OptionSpec) (a : Arguments) (rest : List String) :
    List Char → Option (Arguments × List String)
  | [] => some (a, rest)
  | letter :: letters =>
    match specs.find? (·.letter == some letter) with
    | none => none
    | some spec =>
      if spec.hasValue then
        match letters with
        | [] => a.takeValue spec rest
        | '=' :: value => (a.addOption spec (String.ofList value)).map (·, rest)
        | value => (a.addOption spec (String.ofList value)).map (·, rest)
      else (a.addOption spec "").bind fun a => addLetters specs a rest letters

/-- Sort an option that is written in full. -/
def addLong (specs : List OptionSpec) (a : Arguments) (rest : List String) (written : List Char) :
    Option (Arguments × List String) :=
  let name := String.ofList (written.takeWhile (· != '='))
  match specs.find? (·.name == name), written.dropWhile (· != '=') with
  | none, _ => none
  | some spec, [] =>
    if spec.hasValue then a.takeValue spec rest else (a.addOption spec "").map (·, rest)
  | some spec, _ :: value =>
    if spec.hasValue then (a.addOption spec (String.ofList value)).map (·, rest) else none

/-- Sort arguments in at most `steps` steps. -/
def sortFrom (specs : List OptionSpec) : Nat → Arguments → List String → Option Arguments
  | 0, _, _ => none
  | _, a, [] => some a
  | steps + 1, a, argument :: rest =>
    if isPlain argument then sortFrom specs steps (a.addOperand argument) rest
    else if argument = "--" then some (rest.foldl addOperand a)
    else
      let sorted := match argument.toList with
        | '-' :: '-' :: written => a.addLong specs rest written
        | _ :: letters => a.addLetters specs rest letters
        | [] => none
      sorted.bind fun (a, rest) => sortFrom specs steps a rest

/-- Sort arguments by the options that a command takes. -/
def sort (specs : List OptionSpec) (arguments : List String) : Option Arguments :=
  sortFrom specs (arguments.length + 1) {} arguments

end Arguments

end SchemaGraph

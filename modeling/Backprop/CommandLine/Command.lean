import Backprop.Number.Decimal

/-! The command line: two commands and their options. -/

namespace Backprop

inductive ModelChoice where
  | convolutional
  | perceptron
deriving DecidableEq, Repr

inductive DeviceChoice where
  | host
  | metal
deriving DecidableEq, Repr

inductive RuleChoice where
  | adam
  | gradientDescent
deriving DecidableEq, Repr

structure TrainOptions where
  model : ModelChoice := .perceptron
  data : String := "data"
  kernels : String := "kernels/kernels.txt"
  device : DeviceChoice := .host
  batch : Nat := 64
  steps : Nat := 1000
  rule : RuleChoice := .adam
  learningRate : Binary32 := 0.001
  evalEvery : Nat := 200
  seed : Nat := 99
  save : Option String := none
  load : Option String := none
  metrics : Option String := none
  profile : Bool := false
  validate : Bool := true
deriving DecidableEq, Repr

inductive Command where
  | train (options : TrainOptions)
  | kernels (manifest : String)
  | help
  | version
deriving DecidableEq, Repr

/-- An argument list that names no command. -/
inductive UsageError where
  | noCommand
  | unexpected (argument : String)
  | noValue (option : String)
  | badValue (option value : String)
  | repeated (option : String)
deriving DecidableEq, Repr

def UsageError.message : UsageError → String
  | noCommand => "a command is needed: train or kernels"
  | unexpected argument => s!"unexpected argument '{argument}' found"
  | noValue option => s!"a value is required for '{option}' but none was supplied"
  | badValue option value => s!"invalid value '{value}' for '{option}'"
  | repeated option => s!"the argument '{option}' cannot be used multiple times"

namespace CommandLine

/-- Topics that help can be asked for. -/
def helpTopics : List String := ["train", "kernels", "help"]

/-- Whether an argument is a hyphen, a letter, and possibly more letters after it. -/
def isFlag (letter : Char) (argument : String) : Bool := ['-', letter].isPrefixOf argument.toList

/-- What an option does with the options so far: a flag by itself, others with a value. -/
inductive Setter (σ : Type) where
  | flag (set : σ → σ)
  | value (set : String → σ → Option σ)

def number? (limit : Nat) (text : String) : Option Nat :=
  (Decimal.natural? text).filter (· < limit)

def path? (text : String) : Option String := if text.isEmpty then none else some text

def modelOf? : String → Option ModelChoice
  | "lenet" => some .convolutional
  | "mlp" => some .perceptron
  | _ => none

def deviceOf? : String → Option DeviceChoice
  | "cpu" => some .host
  | "metal" => some .metal
  | _ => none

def ruleOf? : String → Option RuleChoice
  | "adam" => some .adam
  | "sgd" => some .gradientDescent
  | _ => none

def trainSetters : List (String × Setter TrainOptions) := [
  ("--model", .value fun v o => (modelOf? v).map ({ o with model := · })),
  ("--data", .value fun v o => (path? v).map ({ o with data := · })),
  ("--kernels", .value fun v o => (path? v).map ({ o with kernels := · })),
  ("--device", .value fun v o => (deviceOf? v).map ({ o with device := · })),
  ("--batch", .value fun v o => (number? UInt64.size v).map ({ o with batch := · })),
  ("--steps", .value fun v o => (number? UInt64.size v).map ({ o with steps := · })),
  ("--optimizer", .value fun v o => (ruleOf? v).map ({ o with rule := · })),
  ("--lr", .value fun v o => (Decimal.binary32? v).map ({ o with learningRate := · })),
  ("--eval-every", .value fun v o => (number? UInt64.size v).map ({ o with evalEvery := · })),
  ("--seed", .value fun v o => (number? UInt64.size v).map ({ o with seed := · })),
  ("--save", .value fun v o => (path? v).map ({ o with save := some · })),
  ("--load", .value fun v o => (path? v).map ({ o with load := some · })),
  ("--metrics", .value fun v o => (path? v).map ({ o with metrics := some · })),
  ("--profile", .flag ({ · with profile := true })),
  ("--no-validate", .flag ({ · with validate := false }))]

def kernelsSetters : List (String × Setter String) :=
  [("--kernels", .value fun v _ => path? v)]

/-- An option and the value written behind an equals sign, if any. -/
def splitOption (argument : String) : String × Option String :=
  let option := argument.toList.takeWhile (· != '=')
  match argument.toList.drop option.length with
  | _ :: value => (String.ofList option, some (String.ofList value))
  | [] => (argument, none)

/-- A hyphen alone is a value; what else starts with one is an option. -/
def looksLikeOption (argument : String) : Bool :=
  argument != "-" && argument.toList.head? == some '-'

/-- Reads options from the left; `seen` are those read already. Two hyphens end the
options, and nothing may follow. Answers nothing where help is asked for. -/
def readOptions {σ : Type} (setters : List (String × Setter σ)) (seen : List String) (options : σ) :
    List String → Except UsageError (Option σ)
  | [] | ["--"] => .ok (some options)
  | "--" :: argument :: _ => .error (.unexpected argument)
  | argument :: rest =>
    let (option, attached) := splitOption argument
    if argument = "--help" ∨ isFlag 'h' argument then .ok none
    else match setters.lookup option with
      | none => .error (.unexpected argument)
      | some setter =>
        if option ∈ seen then .error (.repeated option)
        else match setter, attached, rest with
          | .flag set, none, rest => readOptions setters (option :: seen) (set options) rest
          | .flag _, some value, _ => .error (.badValue option value)
          | .value set, some value, rest =>
            match set value options with
            | some options => readOptions setters (option :: seen) options rest
            | none => .error (.badValue option value)
          | .value _, none, [] => .error (.noValue option)
          | .value set, none, value :: rest =>
            if looksLikeOption value then .error (.noValue option)
            else match set value options with
              | some options => readOptions setters (option :: seen) options rest
              | none => .error (.badValue option value)

def parse (arguments : List String) : Except UsageError Command := do
  match arguments with
  | [] => throw .noCommand
  | "train" :: rest =>
    match ← readOptions trainSetters [] {} rest with
    | some options => return .train options
    | none => return .help
  | "kernels" :: rest =>
    match ← readOptions kernelsSetters [] "kernels/kernels.txt" rest with
    | some manifest => return .kernels manifest
    | none => return .help
  | ["help"] => return .help
  | "help" :: topic :: rest =>
    if topic ∉ helpTopics then throw (.unexpected topic)
    match rest with
    | [] => return .help
    | extra :: _ => throw (.unexpected extra)
  | first :: _ =>
    if first = "--help" ∨ isFlag 'h' first then return .help
    else if first = "--version" ∨ isFlag 'V' first then return .version
    else throw (.unexpected first)

end CommandLine

end Backprop

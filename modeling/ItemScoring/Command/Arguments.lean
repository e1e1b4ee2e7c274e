import ItemScoring.Prediction.Naming

/-!
# Arguments of the command line

The command line names a command and gives it options and further arguments, in
any order.  An option is written `--name value` or `--name=value`; in the first
form the value must not start with a dash, unless it is a dash alone.  Behind
`--` nothing is an option.  Arguments are taken from left to right, and the first
fault ends the reading; only then is looked for what is missing.
-/

namespace ItemScoring

/-- What a prediction is asked to read and write. -/
structure PredictArguments where
  data : String
  model : String
  totalScore : String := "score"
  /-- The path of the file for the predictions. -/
  output : String := "predictions.tsv"
  /-- The path of the file for the equations, if there is to be one. -/
  equations : Option String := none
  naming : ColumnNaming := {}
deriving Repr, DecidableEq

/-- What a list of equations is made from. -/
structure EquationsArguments where
  model : String
  totalScore : String := "score"
deriving Repr, DecidableEq

/-- What the command line asks for. -/
inductive Command
  | help
  | predict (arguments : PredictArguments)
  | equations (arguments : EquationsArguments)
deriving Repr, DecidableEq

/-- Why a command line is refused. -/
inductive UsageError
  | missingCommand
  | unknownCommand (name : String)
  | unknownOption (argument : String)
  | missingValue (option : String)
  | repeatedOption (option : String)
  | surplusArgument (argument : String)
  | missingArgument (name : String)
deriving Repr, DecidableEq

namespace UsageError

/-- The wording of the error. -/
def message : UsageError → String
  | missingCommand => "a command is required"
  | unknownCommand name => s!"unknown command '{name}'"
  | unknownOption argument => s!"unknown option '{argument}'"
  | missingValue option => s!"option '{option}' needs a value"
  | repeatedOption option => s!"option '{option}' is given twice"
  | surplusArgument argument => s!"argument '{argument}' is not expected"
  | missingArgument name => s!"{name} is required"

end UsageError

/-! ### Options and other arguments -/

/-- The arguments of a command, sorted. -/
structure Given where
  /-- The names and values of options. -/
  options : List (String × String) := []
  /-- What is no option. -/
  others : List String := []
deriving Repr, DecidableEq

/-- Which arguments a command takes. -/
structure Signature where
  /-- The names of its options. -/
  options : List String
  /-- The greatest number of arguments that are no options. -/
  others : Nat
deriving Repr, DecidableEq

namespace Given

variable (signature : Signature) (given : Given)

/-- The value of an option. -/
def value? (option : String) : Option String := given.options.lookup option

/-- Whether an argument looks like an option. -/
def isDashed (argument : String) : Bool :=
  argument.toList.head? == some '-' && argument != "-"

/-- The name and the value of an option of two dashes. -/
def splitOption (argument : String) : String × Option String :=
  let name := argument.toList.takeWhile (· != '=')
  match argument.toList.dropWhile (· != '=') with
  | [] => (argument, none)
  | _ :: value => (.ofList name, some (.ofList value))

/-- Adds an option, unless it is there. -/
def addOption (option value : String) : Except UsageError Given :=
  if (given.value? option).isSome then .error (.repeatedOption option)
  else .ok { given with options := given.options ++ [(option, value)] }

/-- Adds an argument that is no option, unless there are as many as the command
takes. -/
def addOther (argument : String) : Except UsageError Given :=
  if given.others.length < signature.others then
    .ok { given with others := given.others ++ [argument] }
  else .error (.surplusArgument argument)

/-- Sorts arguments; `none` if they ask for help. -/
def collect (given : Given) : List String → Except UsageError (Option Given)
  | [] => .ok (some given)
  | argument :: rest =>
    if argument = "--" then (rest.foldlM (addOther signature) given).map some
    else if argument = "--help" ∨ argument = "-h" then .ok none
    else if isDashed argument then
      let (option, value?) := splitOption argument
      if option ∉ signature.options then .error (.unknownOption argument)
      else
        match value? with
        | some value => do collect (← given.addOption option value) rest
        | none =>
          match rest with
          | [] => .error (.missingValue option)
          | value :: rest =>
            if isDashed value then .error (.missingValue option)
            else do collect (← given.addOption option value) rest
    else do collect (← given.addOther signature argument) rest

end Given

/-! ### Commands -/

namespace Command

/-- What `predict` takes. -/
def predictSignature : Signature where
  options := ["--model", "--total-score", "--output", "--equations", "--prefix-linear",
    "--prefix-probability", "--prefix-class"]
  others := 1

/-- What `equations` takes. -/
def equationsSignature : Signature where
  options := ["--model", "--total-score"]
  others := 0

/-- An option that must be given. -/
def require (given : Given) (option : String) : Except UsageError String :=
  match given.value? option with
  | some value => .ok value
  | none => .error (.missingArgument option)

/-- The command `predict` with the given arguments. -/
def ofPredictGiven (given : Given) : Except UsageError Command :=
  match given.others with
  | [] => .error (.missingArgument "the data file")
  | data :: _ => do
    let model ← require given "--model"
    return .predict {
      data
      model
      totalScore := (given.value? "--total-score").getD "score"
      output := (given.value? "--output").getD "predictions.tsv"
      equations := given.value? "--equations"
      naming := {
        linear := (given.value? "--prefix-linear").getD "n"
        probability := (given.value? "--prefix-probability").getD "p"
        prediction := (given.value? "--prefix-class").getD "I" } }

/-- The command `equations` with the given arguments. -/
def ofEquationsGiven (given : Given) : Except UsageError Command := do
  let model ← require given "--model"
  return .equations { model, totalScore := (given.value? "--total-score").getD "score" }

/-- A command from its signature and arguments. -/
def ofArguments (signature : Signature) (make : Given → Except UsageError Command)
    (arguments : List String) : Except UsageError Command := do
  match ← Given.collect signature {} arguments with
  | none => return .help
  | some given => make given

/-- Help with at most one of the commands. -/
def ofTopics : List String → Except UsageError Command
  | [] => .ok .help
  | name :: rest =>
    if name ∉ ["predict", "equations", "help"] then .error (.unknownCommand name)
    else
      match rest with
      | [] => .ok .help
      | surplus :: _ => .error (.surplusArgument surplus)

/-- Reads a command line. -/
def parse : List String → Except UsageError Command
  | [] => .error .missingCommand
  | "--help" :: _ => .ok .help
  | "-h" :: _ => .ok .help
  | "help" :: names => ofTopics names
  | "predict" :: rest => ofArguments predictSignature ofPredictGiven rest
  | "equations" :: rest => ofArguments equationsSignature ofEquationsGiven rest
  | name :: _ => .error (.unknownCommand name)

/-- The text that explains the command line. -/
def helpText : String := "\n".intercalate [
  "Turn fitted item-focused trees into item equations and predictions",
  "",
  "predict <DATA> --model <MODEL>    Predict item responses",
  "  --total-score <NAME>            column of total scores [score]",
  "  --output <FILE>                 file for the predictions [predictions.tsv]",
  "  --equations <FILE>              file for the equations",
  "  --prefix-linear <NAME>          stem of linear predictors [n]",
  "  --prefix-probability <NAME>     stem of probabilities [p]",
  "  --prefix-class <NAME>           stem of classes [I]",
  "equations --model <MODEL>         Print item equations",
  "  --total-score <NAME>            column of total scores [score]"]

end Command

end ItemScoring

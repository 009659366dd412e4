/-
# Arguments

A command has options that take one value each, and at most one positional argument. A value
stands behind its option, or behind an equals sign in the same argument; it starts with a dash
only when it is behind an equals sign or nothing but a dash. Behind `--` every argument is
positional.
-/

import Rollup.Text.Split

namespace Rollup.Command

/-- An option of a command. -/
structure OptionShape where
  name : String
  /-- Whether it may be given several times. -/
  repeats : Bool
  /-- Whether its value must not be empty. -/
  nonempty : Bool
  deriving DecidableEq, Repr

/-- What a command takes. -/
structure Shape where
  options : List OptionShape
  /-- Whether a positional argument is required. -/
  positional : Bool
  deriving DecidableEq, Repr

/-- Why arguments are not taken as a command. -/
inductive Halt where
  /-- They ask for help. -/
  | help
  /-- They ask for the version. -/
  | version
  /-- They do not fit. -/
  | usage
  deriving DecidableEq, Repr

/-- What the arguments of a command say. -/
structure Arguments where
  values : List (String × String)
  positional : Option String
  deriving DecidableEq, Repr

namespace Arguments

def none : Arguments := ⟨[], .none⟩

/-- The last value of an option. -/
def value? (arguments : Arguments) (name : String) : Option String :=
  arguments.values.reverse.lookup name

/-- All values of an option, in order. -/
def allValues (arguments : Arguments) (name : String) : List String :=
  (arguments.values.filter fun entry => entry.1 = name).map Prod.snd

/-- Add a value of an option. -/
def addValue (arguments : Arguments) (option : OptionShape) (value : String) :
    Except Halt Arguments :=
  if option.nonempty && value.isEmpty then .error .usage
  else if !option.repeats && (arguments.value? option.name).isSome then .error .usage
  else .ok { arguments with values := arguments.values ++ [(option.name, value)] }

/-- Add a positional argument; there is room for one at most. -/
def addPositional (arguments : Arguments) (shape : Shape) (text : String) :
    Except Halt Arguments :=
  if shape.positional && arguments.positional.isNone then
    .ok { arguments with positional := some text }
  else .error .usage

end Arguments

/-- What an argument is by its look. -/
inductive Look where
  /-- Two dashes alone. -/
  | terminator
  /-- A long option, perhaps with a value. -/
  | long (name : String) (value : Option String)
  /-- Short options. -/
  | short (letters : List Char)
  /-- Anything else; a single dash is such a text. -/
  | plain
  deriving DecidableEq, Repr

/-- The look of an argument. -/
def lookOf (argument : String) : Look :=
  match argument.toList with
  | '-' :: '-' :: [] => .terminator
  | '-' :: '-' :: rest =>
      let body := String.ofList rest
      match Text.splitFirst? '=' body with
      | some (name, value) => .long name (some value)
      | none => .long body none
  | ['-'] => .plain
  | '-' :: letters => .short letters
  | _ => .plain

/-- How far the arguments are read. -/
structure ReadState where
  arguments : Arguments
  /-- The option that waits for its value. -/
  waiting : Option OptionShape
  /-- Whether everything is positional from here on. -/
  positionalOnly : Bool

namespace ReadState

def start : ReadState := ⟨.none, none, false⟩

/-- Take one argument. -/
def step (shape : Shape) (state : ReadState) (argument : String) : Except Halt ReadState := do
  if state.positionalOnly then
    let arguments ← state.arguments.addPositional shape argument
    return { state with arguments := arguments }
  else
    match lookOf argument, state.waiting with
    | .plain, some option =>
        let arguments ← state.arguments.addValue option argument
        return { state with arguments := arguments, waiting := none }
    | _, some _ => .error .usage
    | .plain, none =>
        let arguments ← state.arguments.addPositional shape argument
        return { state with arguments := arguments }
    | .terminator, none => return { state with positionalOnly := true }
    | .short letters, none => .error (if letters.head? = some 'h' then .help else .usage)
    | .long name value, none =>
        match shape.options.find? fun option => option.name = name, value with
        | some option, some value =>
            let arguments ← state.arguments.addValue option value
            return { state with arguments := arguments }
        | some option, none => return { state with waiting := some option }
        | none, value => .error (if name = "help" && value.isNone then .help else .usage)

/-- The arguments when nothing more comes. -/
def finish (shape : Shape) (state : ReadState) : Except Halt Arguments :=
  if state.waiting.isSome || (shape.positional && state.arguments.positional.isNone) then
    .error .usage
  else .ok state.arguments

end ReadState

/-- Read the arguments of a command. -/
def readArguments (shape : Shape) (arguments : List String) : Except Halt Arguments := do
  let state ← arguments.foldlM (ReadState.step shape) ReadState.start
  state.finish shape

end Rollup.Command

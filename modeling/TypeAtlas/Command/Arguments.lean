/-!
# Command-line arguments

Arguments are first sorted into options with their values and bare arguments, by the
options that a command knows; what they mean to the command is looked at afterwards. An
option's value stands behind an equals sign, directly behind a short option, or in the
next argument, which then must not look like an option itself. Behind two dashes every
argument is bare.
-/

namespace TypeAtlas

inductive Arity where
  /-- At most once, without a value. -/
  | flag
  /-- Any number of times, without a value. -/
  | counted
  /-- At most once, with a value. -/
  | value
  deriving DecidableEq, Repr

structure OptionSpec where
  long : String
  short : Option Char
  arity : Arity
  deriving DecidableEq, Repr

inductive UsageError where
  | unknownOption (text : String)
  | missingValue (long : String)
  | unexpectedValue (long : String)
  | repeatedOption (long : String)
  | missingOption (long : String)
  | invalidValue (text : String)
  | missingArgument
  | unexpectedArgument (text : String)
  | missingCommand
  | unknownCommand (text : String)
  deriving DecidableEq, Repr

def UsageError.message : UsageError → String
  | unknownOption text => s!"unexpected argument '{text}'"
  | missingValue long => s!"a value is required for '--{long}' but none was supplied"
  | unexpectedValue long => s!"unexpected value for '--{long}'; no value is expected"
  | repeatedOption long => s!"the argument '--{long}' cannot be used multiple times"
  | missingOption long => s!"the argument '--{long}' was not provided"
  | invalidValue text => s!"invalid value '{text}'"
  | missingArgument => "a required argument was not provided"
  | unexpectedArgument text => s!"unexpected argument '{text}'"
  | missingCommand => "a command is required: merge or inspect"
  | unknownCommand text => s!"unrecognized command '{text}'"

/-- One option with its value, or one bare argument. -/
inductive Argument where
  | option (long : String) (value : Option String)
  | bare (text : String)
  deriving DecidableEq, Repr

namespace Argument

def looksLikeOption : List Char → Bool
  | '-' :: _ :: _ => true
  | _ => false

def nextValue (long : String) : List String → Except UsageError (String × List String)
  | [] => .error (.missingValue long)
  | next :: rest =>
    if looksLikeOption next.toList then .error (.missingValue long) else .ok (next, rest)

/-- Options of one letter each behind a single dash, and whether the last of them still
needs the next argument for its value. -/
def letters (specs : List OptionSpec) :
    List Char → Except UsageError (List Argument × Option String)
  | [] => .ok ([], none)
  | letter :: rest =>
    match specs.find? (·.short == some letter) with
    | none => .error (.unknownOption (String.ofList [letter]))
    | some spec =>
      match spec.arity with
      | .flag | .counted => do
        let (others, pending) ← letters specs rest
        return (.option spec.long none :: others, pending)
      | .value =>
        if rest.isEmpty then .ok ([], some spec.long)
        else
          let value := if rest.head? = some '=' then rest.tail else rest
          .ok ([.option spec.long (some (String.ofList value))], none)

def long (specs : List OptionSpec) (name : String) (value : Option String) :
    Except UsageError (List Argument × Option String) :=
  match specs.find? (·.long = name) with
  | none => .error (.unknownOption name)
  | some spec =>
    match spec.arity, value with
    | .value, none => .ok ([], some spec.long)
    | .value, some value => .ok ([.option spec.long (some value)], none)
    | _, none => .ok ([.option spec.long none], none)
    | _, some _ => .error (.unexpectedValue spec.long)

/-- One argument by itself: what it holds, and the option that still needs a value. -/
def sortOne (specs : List OptionSpec) (argument : String) :
    Except UsageError (List Argument × Option String) :=
  match argument.toList with
  | '-' :: '-' :: body =>
    let name := String.ofList (body.takeWhile (· != '='))
    let behind := body.dropWhile (· != '=')
    long specs name (if behind.isEmpty then none else some (String.ofList behind.tail))
  | '-' :: letter :: rest => letters specs (letter :: rest)
  | _ => .ok ([.bare argument], none)

/-- Sort arguments into options and bare arguments; each round takes one or two of them, so
as many rounds as there are arguments suffice. -/
def sortWithin (specs : List OptionSpec) : Nat → List String → Except UsageError (List Argument)
  | 0, _ => .ok []
  | _ + 1, [] => .ok []
  | rounds + 1, argument :: rest =>
    if argument = "--" then .ok (rest.map .bare)
    else do
      let (sorted, pending) ← sortOne specs argument
      match pending with
      | none => return sorted ++ (← sortWithin specs rounds rest)
      | some long =>
        let (value, rest) ← nextValue long rest
        return sorted ++ .option long (some value) :: (← sortWithin specs rounds rest)

def sort (specs : List OptionSpec) (arguments : List String) :
    Except UsageError (List Argument) :=
  sortWithin specs arguments.length arguments

def bares (arguments : List Argument) : List String :=
  arguments.filterMap fun
    | .bare text => some text
    | .option .. => none

/-- The values given with an option; a flag's value is the empty text. -/
def valuesOf (long : String) (arguments : List Argument) : List String :=
  arguments.filterMap fun
    | .option name value => if name = long then some (value.getD "") else none
    | .bare _ => none

def once (long : String) (arguments : List Argument) : Except UsageError (Option String) :=
  match valuesOf long arguments with
  | [] => .ok none
  | [value] => .ok (some value)
  | _ => .error (.repeatedOption long)

def single (arguments : List Argument) : Except UsageError String :=
  match bares arguments with
  | [] => .error .missingArgument
  | [text] => .ok text
  | _ :: second :: _ => .error (.unexpectedArgument second)

end Argument

end TypeAtlas

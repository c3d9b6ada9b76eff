import TypeAtlas.Command.Arguments
import TypeAtlas.Files.Tree
import TypeAtlas.Text.Decimal

/-!
# Requests

The two commands and what their arguments ask for: to merge the dumps below a directory
into a blob, and to report on a blob.
-/

namespace TypeAtlas

structure MergeRequest where
  input : FilePath
  output : FilePath
  framed : Bool
  /-- Pointer width, if it is not to be taken from the dumps. -/
  width : Option UInt64
  assembly : Option FilePath
  json : Option FilePath
  deriving DecidableEq, Repr

structure ReportRequest where
  blob : FilePath
  /-- The only type to report on. -/
  only : Option String
  deriving DecidableEq, Repr

inductive Request where
  | merge (request : MergeRequest)
  | report (request : ReportRequest)
  deriving DecidableEq, Repr

namespace Request

/-! ## Options -/

def verbose : OptionSpec := ⟨"verbose", some 'v', .counted⟩

def mergeOptions : List OptionSpec := [
  verbose,
  ⟨"output", some 'o', .value⟩,
  ⟨"raw", none, .flag⟩,
  ⟨"arch", none, .value⟩,
  ⟨"asm", none, .value⟩,
  ⟨"json", none, .value⟩]

def reportOptions : List OptionSpec := [verbose, ⟨"type", some 't', .value⟩]

/-! ## Values -/

/-- A path has at least one character. -/
def path (text : String) : Except UsageError FilePath :=
  if text.isEmpty then .error (.invalidValue text) else .ok (.ofText text)

def optionalPath : Option String → Except UsageError (Option FilePath)
  | none => .ok none
  | some text => (path text).map some

def optionalWidth : Option String → Except UsageError (Option UInt64)
  | none => .ok none
  | some text =>
    match Text.unsigned? UInt64.size text.toList with
    | some width => .ok (some (UInt64.ofNat width))
    | none => .error (.invalidValue text)

/-! ## Commands -/

def mergeOf (arguments : List String) : Except UsageError MergeRequest := do
  let sorted ← Argument.sort mergeOptions arguments
  let input ← path (← Argument.single sorted)
  let some output ← Argument.once "output" sorted | throw (.missingOption "output")
  let raw ← Argument.once "raw" sorted
  return {
    input := input
    output := ← path output
    framed := raw.isNone
    width := ← optionalWidth (← Argument.once "arch" sorted)
    assembly := ← optionalPath (← Argument.once "asm" sorted)
    json := ← optionalPath (← Argument.once "json" sorted) }

def reportOf (arguments : List String) : Except UsageError ReportRequest := do
  let sorted ← Argument.sort reportOptions arguments
  let blob ← path (← Argument.single sorted)
  return { blob := blob, only := ← Argument.once "type" sorted }

def isVerbose (argument : String) : Bool :=
  argument == "--verbose" ||
    match argument.toList with
    | '-' :: letter :: rest => (letter :: rest).all (· == 'v')
    | _ => false

def ofArguments (arguments : List String) : Except UsageError Request :=
  match arguments.dropWhile isVerbose with
  | [] => .error .missingCommand
  | command :: rest =>
    if command = "merge" then (mergeOf rest).map .merge
    else if command = "inspect" then (reportOf rest).map .report
    else .error (.unknownCommand command)

end Request

end TypeAtlas

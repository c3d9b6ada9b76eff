import TypeAtlas.Files.Tree
import TypeAtlas.Report

/-!
# Failures of a run

Why a run stopped, as a chain of messages from what was being done to what went wrong, and
the text that reports the chain.
-/

namespace TypeAtlas

inductive Failure where
  | scan (path : FilePath) (error : FileError)
  | noDumps (path : FilePath)
  | readDump (path : FilePath) (error : FileError)
  | unsupportedWidth (width : UInt64)
  | encode (error : BlobError)
  | write (path : FilePath) (error : FileError)
  | readBlob (path : FilePath) (error : FileError)
  | report (failure : Report.Failure)
  deriving DecidableEq, Repr

namespace Failure

def messages : Failure → List String
  | scan path error => [s!"Failed to scan {path.shown}", error.message]
  | noDumps path => [s!"No *.reflection.dat files under {path.shown}"]
  | readDump path error => [s!"Failed to read dump {path.shown}", error.message]
  | unsupportedWidth width =>
    [s!"Unsupported pointer width {width.toNat} (expected 4 or 8)"]
  | encode error => ["Failed to encode merged schema", error.message]
  | write path error => [s!"Failed to write {path.shown}", error.message]
  | readBlob path error => [s!"Failed to read blob {path.shown}", error.message]
  | report failure => failure.messages

/-- A text whose lines behind the first are moved in by some blanks. -/
def indentRest (blanks : Nat) (text : String) : String :=
  String.ofList (text.toList.flatMap fun c =>
    if c = '\n' then '\n' :: List.replicate blanks ' ' else [c])

/-- Causes in order, one to a line, numbered when there are several. -/
def causeLines (causes : List String) : String :=
  match causes with
  | [cause] => "    " ++ indentRest 4 cause ++ "\n"
  | _ =>
    String.join (causes.zipIdx.map fun (cause, number) =>
      Report.padStart 5 (toString number) ++ ": " ++ indentRest 7 cause ++ "\n")

def text (failure : Failure) : String :=
  match failure.messages with
  | [] => "Error: \n"
  | [outermost] => s!"Error: {outermost}\n"
  | outermost :: causes => s!"Error: {outermost}\n\nCaused by:\n" ++ causeLines causes

end Failure

end TypeAtlas

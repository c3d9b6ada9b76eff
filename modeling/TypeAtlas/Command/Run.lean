import TypeAtlas.Blob.Assembly
import TypeAtlas.Blob.Encode
import TypeAtlas.Command.Failure
import TypeAtlas.Command.Request
import TypeAtlas.Dump.Reader
import TypeAtlas.Files.Discovery
import TypeAtlas.Schema.Json
import TypeAtlas.Schema.Merge

/-!
# Runs

A merge reads every dump before it plans what to write, and plans everything before it
writes anything, so that whatever goes wrong before the first file is written leaves all
files as they were. The files are then written one after the other, and those written
before a failure stay.
-/

namespace TypeAtlas

structure PlannedFile where
  path : FilePath
  bytes : Bytes
  deriving DecidableEq, Repr

/-- What a merge writes, and what it prints when all is written. -/
structure MergePlan where
  files : List PlannedFile
  summary : String
  deriving DecidableEq, Repr

namespace MergeRequest

/-- The width that is asked for, else the one that the dumps give, else that of the host. -/
def chosenWidth (request : MergeRequest) (schema : Schema) : UInt64 :=
  (request.width.or schema.arch).getD (UInt64.ofNat hostWidth)

def dumpPath (request : MergeRequest) (found : FoundDump) : FilePath :=
  found.path.foldl FilePath.join request.input

def dumpText (path : FilePath) (bytes : Except FileError Bytes) : Except Failure String :=
  match bytes with
  | .error error => .error (.readDump path error)
  | .ok bytes =>
    match Bytes.toString? bytes with
    | some text => .ok text
    | none => .error (.readDump path .notText)

/-- The dumps that were found, of which there has to be one. -/
def dumpsFound (request : MergeRequest) (found : Except FileError (List FoundDump)) :
    Except Failure (List FoundDump) :=
  match found with
  | .error error => .error (.scan request.input error)
  | .ok [] => .error (.noDumps request.input)
  | .ok dumps => .ok dumps

/-- The texts of all dumps, in the order in which they are merged. -/
def dumpTexts (request : MergeRequest) (tree : FileTree) : Except Failure (List String) :=
  match request.dumpsFound (Discovery.scan tree request.input) with
  | .error failure => .error failure
  | .ok dumps =>
    dumps.mapM fun dump =>
      let path := request.dumpPath dump
      dumpText path (tree.readPath path)

def plan (request : MergeRequest) (texts : List String) : Except Failure MergePlan :=
  let schema := Schema.merged (texts.map Dump.parse)
  let width := request.chosenWidth schema
  if width ≠ 4 ∧ width ≠ 8 then .error (.unsupportedWidth width)
  else match schema.encode ⟨width, hostOrder, request.framed⟩ with
    | .error error => .error (.encode error)
    | .ok blob =>
      let assembly := request.assembly.map fun path =>
        ⟨path, Bytes.ofString (Assembly.render blob)⟩
      let json := request.json.map fun path =>
        ⟨path, Bytes.ofString schema.toJson.print⟩
      .ok {
        files := ⟨request.output, blob⟩ :: assembly.toList ++ json.toList
        summary :=
          s!"[OK] Merged {texts.length} dumps: {schema.size} types, {blob.length} bytes -> " ++
            request.output.shown ++ "\n" }

end MergeRequest

/-- Write files one after the other, up to the first that cannot be written. -/
def writeAll (tree : FileTree) (now : Nat) : List PlannedFile → Option Failure × FileTree
  | [] => (none, tree)
  | file :: rest =>
    match tree.writePath now file.path file.bytes with
    | .error error => (some (.write file.path error), tree)
    | .ok tree => writeAll tree now rest

inductive Ending where
  | done (stdout : String)
  | failed (failure : Failure)
  | misused (error : UsageError)
  deriving DecidableEq, Repr

namespace Ending

def exitCode : Ending → Nat
  | done _ => 0
  | failed _ => 1
  | misused _ => 2

end Ending

def MergeRequest.run (request : MergeRequest) (tree : FileTree) (now : Nat) :
    Ending × FileTree :=
  match request.dumpTexts tree with
  | .error failure => (.failed failure, tree)
  | .ok texts =>
    match request.plan texts with
    | .error failure => (.failed failure, tree)
    | .ok plan =>
      match writeAll tree now plan.files with
      | (some failure, tree) => (.failed failure, tree)
      | (none, tree) => (.done plan.summary, tree)

def ReportRequest.answer (request : ReportRequest) (bytes : Except FileError Bytes) : Ending :=
  match bytes with
  | .error error => .failed (.readBlob request.blob error)
  | .ok bytes =>
    match Report.render bytes request.only with
    | .ok text => .done text
    | .error failure => .failed (.report failure)

def run (arguments : List String) (tree : FileTree) (now : Nat) : Ending × FileTree :=
  match Request.ofArguments arguments with
  | .error error => (.misused error, tree)
  | .ok (.merge request) => request.run tree now
  | .ok (.report request) => (request.answer (tree.readPath request.blob), tree)

end TypeAtlas

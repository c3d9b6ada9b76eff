import TypeAtlas.Command.Run

/-!
# Command line

The commands on the files of the system. Here files are listed, read and written; what is
done with them, and what is said about it, is decided by the request.
-/

namespace TypeAtlas

namespace CommandLine

/-- The number of a system error. Some calls give it with its sign turned. -/
def errorNumber (code : UInt32) : UInt32 := if code < 0x80000000 then code else 0 - code

def fileError : IO.Error → FileError
  | .noFileOrDirectory .. => .notFound
  | .inappropriateType _ code _ =>
    if errorNumber code = 20 then .notADirectory else .isADirectory
  | error@(.invalidArgument _ code _) =>
    if errorNumber code = 36 then .nameTooLong else .other (toString error)
  | error => .other (toString error)

def attempt (action : IO α) : IO (Except FileError α) := do
  match ← action.toBaseIO with
  | .ok value => return .ok value
  | .error error => return .error (fileError error)

/-- A time as nanoseconds since a moment before every time that files have. -/
def timeStamp (time : IO.FS.SystemTime) : Nat :=
  (time.sec + 0x8000000000000000).toNat * 1000000000 + time.nsec.toNat

/-- The dumps below a directory, whose own path below the one searched is given. -/
partial def dumpsBelow (directory : FilePath) (behind : List Bytes) : IO (List FoundDump) := do
  let entries ← ((← IO.currentDir) / directory.shown).readDir
  let mut found := []
  for item in entries do
    let name := Bytes.ofString item.fileName
    let about ← item.path.symlinkMetadata
    if about.type == .dir then
      found := (← dumpsBelow (directory.join name) (behind ++ [name])) ++ found
    else if Discovery.isDumpName name then
      found := ⟨behind ++ [name], timeStamp about.modified⟩ :: found
  return found

def readFile (path : FilePath) : IO (Except FileError Bytes) :=
  attempt do return (← IO.FS.readBinFile path.shown).toList

def writeFile (file : PlannedFile) : IO (Except FileError Unit) :=
  attempt (IO.FS.writeBinFile file.path.shown ⟨file.bytes.toArray⟩)

def merge (request : MergeRequest) : ExceptT Failure IO Ending := do
  let found ← attempt (dumpsBelow request.input [])
  let dumps ← request.dumpsFound (found.map Discovery.order)
  let texts ← dumps.mapM fun dump => do
    let path := request.dumpPath dump
    MergeRequest.dumpText path (← readFile path)
  let plan ← request.plan texts
  for file in plan.files do
    if let .error error ← writeFile file then throw (.write file.path error)
  return .done plan.summary

def report (request : ReportRequest) : IO Ending :=
  return request.answer (← readFile request.blob)

def answer (arguments : List String) : IO Ending := do
  match Request.ofArguments arguments with
  | .error error => return .misused error
  | .ok (.report request) => report request
  | .ok (.merge request) =>
    match ← (merge request).run with
    | .ok ending => return ending
    | .error failure => return .failed failure

end CommandLine

end TypeAtlas

open TypeAtlas in
def main (arguments : List String) : IO UInt32 := do
  let ending ← CommandLine.answer arguments
  match ending with
  | .done text => IO.print text
  | .failed failure => IO.eprint failure.text
  | .misused error => IO.eprintln s!"error: {error.message}"
  return UInt32.ofNat ending.exitCode

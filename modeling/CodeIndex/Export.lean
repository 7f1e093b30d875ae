import CodeIndex.Indexing
import CodeIndex.Job.Request

/-!
# Export

The exporter writes the index as JSON to its standard output, which goes straight into the output
file. An empty file is removed again; what a failing exporter has written is kept.

* `besideIndex` : the output next to the index;
* `FileSystem.isOneFile` : whether two paths lead to one file;
* `Host.exportJson` : runs the exporter.
-/

namespace CodeIndex

/-- Why there is no JSON file. -/
inductive ExportError
  | noIndex (path : Path)
  | overIndex (path : Path)
  | notOpened (path : Path) (cause : IoError)
  | child (cause : ChildError)
  | unsuccessful (status : ExitStatus) (stderr : String) (kept : Option Path)
  | nothingWritten (path : Path)
  | unmeasured (path : Path) (cause : IoError)
  deriving Repr, DecidableEq

namespace ExportError

/-- Says where unfinished output is. -/
def keptNote : Option Path → String
  | some p => " (partial output kept at " ++ p.text ++ ")"
  | none => ""

def message : ExportError → String
  | .noIndex p => "index file not found: " ++ p.text
  | .overIndex p => "JSON output path is the index file itself: " ++ p.text
  | .notOpened p e => "cannot create output file " ++ p.text ++ ": " ++ e.message
  | .child e => e.message
  | .unsuccessful status stderr kept =>
    "exporter exited with " ++ status.text ++ keptNote kept ++ diagnostics stderr
  | .nothingWritten p => "exporter produced an empty file (removed): " ++ p.text
  | .unmeasured p e => "cannot inspect output file " ++ p.text ++ ": " ++ e.message

/-- The messages of what caused the error. -/
def causes : ExportError → List String
  | .notOpened _ e => [e.message]
  | .child e => e.causes
  | .unmeasured _ e => [e.message]
  | _ => []

end ExportError

/-- A JSON file that has been written. -/
structure Exported where
  output : Path
  bytes : Nat
  diagnostics : String
  deriving Repr, DecidableEq

/-- How to run the exporter. The limit is in milliseconds. -/
structure ExporterCall where
  tool : Tool
  jsonFileName : String
  timeout : Option Nat

/-- The output next to an index. -/
def besideIndex (index : Path) (jsonFileName : String) : Path :=
  (index.parent?.getD ⟨"."⟩).child jsonFileName

namespace FileSystem

/-- Whether two paths lead to one file: they have the same steps, or both lead to one place. -/
def isOneFile (fs : FileSystem) (cwd : Place) (p q : Path) : Bool :=
  p.sameSteps q ||
    match fs.canonical cwd p, fs.canonical cwd q with
    | .ok a, .ok b => a = b
    | _, _ => false

/-- Removes a file of no bytes. The size that was found comes back, unless the file is gone. -/
def dropIfEmpty (cwd : Place) (path : Path) : StateM FileSystem (Option Nat) := fun fs =>
  match fs.size cwd path with
  | .error _ => (none, fs)
  | .ok size =>
    if size = 0 then
      match fs.removeFile cwd path with
      | .ok fs' => (none, fs')
      | .error _ => (some size, fs)
    else (some size, fs)

end FileSystem

namespace Host

/-- Opens the output of an export, after the directories above it have been made. -/
def openExport (host : Host) (output : Path) : Effect ExportError OpenFile := do
  match output.parent? with
  | some parent => Effect.attempt (.notOpened output ·) (·.createDirs host.cwd parent)
  | none => pure ()
  fun fs =>
    match fs.openWrite host.cwd output fileMode with
    | .ok (fs', sink) => (.ok sink, fs')
    | .error e => (.error (.notOpened output e), fs)

/-- Where the output of an export goes. -/
def exportPath (host : Host) (index : Path) (output : Option Path) (jsonFileName : String) :
    Except ExportError Path :=
  match output with
  | some p => (absolutePath host.cwd p).mapError (.notOpened p ·)
  | none => .ok (besideIndex index jsonFileName)

/-- The directory and the name of an index, if it is a file. -/
def indexParts (host : Host) (fs : FileSystem) (index : Path) :
    Except ExportError (Path × String) :=
  match index.parent?, index.fileName? with
  | some dir, some name =>
    if fs.isFile host.cwd index then .ok (dir, name) else .error (.noIndex index)
  | _, _ => .error (.noIndex index)

/-- Removes an empty file after a failure. -/
def dropExport (host : Host) (output : Path) : Effect ExportError (Option Nat) := fun fs =>
  let (size, fs') := FileSystem.dropIfEmpty host.cwd output fs
  (.ok size, fs')

/-- The size of what a successful exporter has written, which must not be empty. -/
def measureExport (host : Host) (output : Path) : Effect ExportError Nat := fun fs =>
  match fs.size host.cwd output with
  | .error e => (.error (.unmeasured output e), fs)
  | .ok size =>
    if size = 0 then
      match fs.removeFile host.cwd output with
      | .ok fs' => (.error (.nothingWritten output), fs')
      | .error _ => (.error (.nothingWritten output), fs)
    else (.ok size, fs)

/-- Refuses an output that is the index itself. -/
def guardIndex (host : Host) (index output : Path) : Effect ExportError Unit := fun fs =>
  if fs.isOneFile host.cwd output index then (.error (.overIndex output), fs) else (.ok (), fs)

/-- All that comes before the exporter: the output is opened, and there is the command to run. -/
def prepareExport (host : Host) (index : Path) (output : Option Path) (call : ExporterCall) :
    Effect ExportError (Path × OpenFile × Command) := do
  let (dir, name) ← Effect.examine (host.indexParts · index)
  let output ← Effect.examine fun _ => host.exportPath index output call.jsonFileName
  host.guardIndex index output
  let sink ← host.openExport output
  pure (output, sink, ⟨call.tool.path, ["print", "--json", name], some dir⟩)

/-- What is made of an output when the exporter has ended. -/
def settleExport (host : Host) (output : Path) :
    Except ChildError Captured → Effect ExportError Exported
  | .error e => do
    let _ ← host.dropExport output
    throw (.child e)
  | .ok out =>
    if out.status.success then do
      let bytes ← host.measureExport output
      pure ⟨output, bytes, out.stderr⟩
    else do
      let size ← host.dropExport output
      throw (.unsuccessful out.status out.stderr
        (if size.getD 0 > 0 then some output else none))

/-- Runs the exporter in the directory of the index. -/
def exportJson (host : Host) (index : Path) (output : Option Path) (call : ExporterCall) :
    Effect ExportError Exported := do
  let (output, sink, command) ← host.prepareExport index output call
  let ended ← (host.run call.tool.name command (some sink) call.timeout).outcome
  host.settleExport output ended

end Host

end CodeIndex

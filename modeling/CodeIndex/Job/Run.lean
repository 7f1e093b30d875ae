import CodeIndex.Job.Event
import CodeIndex.Size

/-!
# Runs

A run copies the project, has the copy analyzed, converts the index and cleans up. The first
failure ends it; a temporary copy is removed in either case, unless it is to be kept.

* `Job` : what is run, with what it remembers between runs;
* `Account` : the account of a successful run;
* `Job.run` : one run.
-/

namespace CodeIndex

/-- The account of a successful run. -/
structure Account where
  project : Path
  kind : Analyzer
  analyzer : String
  copy : Path
  copyKept : Bool
  index : Path
  indexSearched : Bool
  jsonOutput : Path
  size : Nat
  outputKept : Bool
  warnings : List String
  deriving Repr, DecidableEq

/-- What is run. The state and the warnings not yet reported outlive a run. -/
structure Job where
  request : Request
  settings : Settings
  tools : Toolchain
  state : JobState := .idle
  warnings : List String := []

/-- What changes during a run. Events are in order. -/
structure Progress where
  files : FileSystem
  state : JobState
  warnings : List String
  events : List Event

/-- A part of a run. -/
abbrev Running (α : Type) := ExceptT StageError (StateM Progress) α

namespace Running

/-- Tells the observer something. -/
def tell (e : Event) : Running Unit := modify fun p => { p with events := p.events ++ [e] }

/-- Begins a stage. -/
def enter (stage : Stage) : Running Unit := do
  modify fun p => { p with state := .running stage }
  tell (.started stage)

/-- Tells the observer of something that is wrong, and remembers it for the report. -/
def warn (text : String) : Running Unit := do
  tell (.warning text)
  modify fun p => { p with warnings := p.warnings ++ [text] }

/-- Tells the observer that a stage failed. -/
def fail (e : StageError) : Running Unit := do
  modify fun p => { p with state := .failed e.stage }
  tell (.failed e.stage e.message)

/-- Does something to the file system. -/
def perform {ε α : Type} (act : Effect ε α) : Running (Except ε α) := do
  let p ← get
  let (r, files) := act p.files
  set { p with files := files }
  pure r

/-- Does something to the file system that cannot fail. -/
def performSafely {α : Type} (act : StateM FileSystem α) : Running α := do
  let p ← get
  let (r, files) := act p.files
  set { p with files := files }
  pure r

end Running

namespace Job
open Running

/-- The message about a chosen destination. -/
def keptMessage (path : Path) (notice : Bool) : String :=
  if notice then
    "Note: project copy kept at " ++ path.text ++ " (use --keep-copy to suppress this message)"
  else "Project copy kept at " ++ path.text

/-- Cleans up and says whether the copy is still there. -/
def disposeCopy (host : Host) (p : Job) (copy : WorkingCopy) : Running Bool := do
  match ← performSafely (host.dispose copy p.request.keepCopy) with
  | .removed root =>
    tell (.info ("Cleaned up temporary workspace " ++ root.text))
    pure false
  | .kept path notice =>
    tell (.info (keptMessage path notice))
    pure true
  | .stuck root e =>
    warn ("could not remove temporary workspace " ++ root.text ++ ": " ++ e.message)
    pure true

/-- The copying stage. -/
def copying (host : Host) (p : Job) : Running WorkingCopy := do
  enter .copying
  tell (.info ("Copying project from " ++ p.request.source.text))
  match ← perform (host.makeWorkingCopy p.request p.settings) with
  | .ok copy =>
    tell (.finished .copying ("Project copied to " ++ copy.path.text))
    pure copy
  | .error e =>
    fail (.copying e)
    throw (.copying e)

/-- How the analyzer is run. -/
def indexerCall (p : Job) : IndexerCall :=
  ⟨p.tools.analyzer, p.settings.tools.analyzerSubcommand, p.settings.indexExtension,
    p.request.timeout⟩

/-- How the exporter is run. -/
def exporterCall (p : Job) : ExporterCall :=
  ⟨p.tools.exporter, p.settings.jsonFileName, p.request.timeout⟩

/-- The analyzing stage. -/
def analyzing (host : Host) (p : Job) (copy : WorkingCopy) : Running FoundIndex := do
  let call := p.indexerCall
  enter .analyzing
  tell (.info ("Executing: " ++ call.tool.name ++ " " ++ call.subcommand ++
    " . (in " ++ copy.path.text ++ ")"))
  match ← perform (host.makeIndex copy call) with
  | .ok found =>
    if found.sighting = .searched then
      warn ("index not at " ++ (copy.path.child call.expectedName).text ++
        ", found by search: " ++ found.index.text)
    tell (.finished .analyzing ("SCIP index: " ++ found.index.text))
    pure found
  | .error e =>
    fail (.analyzing e)
    let _ ← p.disposeCopy host copy
    throw (.analyzing e)

/-- The converting stage. -/
def converting (host : Host) (p : Job) (copy : WorkingCopy) (found : FoundIndex) :
    Running Exported := do
  enter .converting
  match ← perform (host.exportJson found.index p.request.jsonOutput p.exporterCall) with
  | .ok exported =>
    tell (.finished .converting ("JSON export: " ++ exported.output.text ++ " (" ++
      Size.text exported.bytes ++ ")"))
    pure exported
  | .error e =>
    fail (.converting e)
    let _ ← p.disposeCopy host copy
    throw (.converting e)

/-- All stages and the account of them. The warnings remembered are handed over. -/
def stages (host : Host) (p : Job) : Running Account := do
  let copy ← p.copying host
  let found ← p.analyzing host copy
  let exported ← p.converting host copy found
  modify fun s => { s with state := .done }
  let kept ← p.disposeCopy host copy
  let warnings := (← get).warnings
  modify fun s => { s with warnings := [] }
  pure {
    project := p.request.source
    kind := p.request.analyzer
    analyzer := p.tools.analyzer.name
    copy := copy.path
    copyKept := kept
    index := found.index
    indexSearched := found.sighting = .searched
    jsonOutput := exported.output
    size := exported.bytes
    outputKept := kept || !exported.output.startsWith copy.path
    warnings }

/-- What came of a run. -/
structure RunResult where
  outcome : Except StageError Account
  events : List Event
  files : FileSystem
  job : Job

/-- One run. -/
def run (host : Host) (p : Job) (fs : FileSystem) : RunResult :=
  let (outcome, s) := p.stages host ⟨fs, p.state, p.warnings, []⟩
  ⟨outcome, s.events, s.files, { p with state := s.state, warnings := s.warnings }⟩

end Job

end CodeIndex

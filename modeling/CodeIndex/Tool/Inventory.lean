import CodeIndex.Child.Run
import CodeIndex.Settings.Basic
import CodeIndex.Tool.Search

/-!
# Checking tools

A tool is usable if it can be found and answers a question about itself: analyzers give their
version, the exporter its version or at least its help.

* `Host.probe` : asks a tool;
* `Host.takeInventory` : finds and asks both tools of a run;
* `Inventory.toolchain` : the tools, if both are usable.
-/

namespace CodeIndex

/-- A usable tool with the version it gave. -/
structure ProbedTool where
  tool : Tool
  version : Option String
  deriving Repr, DecidableEq

/-- What is known about a tool. -/
structure ToolFinding where
  role : Role
  name : String
  outcome : Except MissingTool ProbedTool

instance : DecidableEq ToolFinding
  | ⟨role, name, .ok tool⟩, ⟨role', name', .ok tool'⟩ =>
    decidable_of_iff (role = role' ∧ name = name' ∧ tool = tool') (by simp)
  | ⟨role, name, .error e⟩, ⟨role', name', .error e'⟩ =>
    decidable_of_iff (role = role' ∧ name = name' ∧ e = e') (by simp)
  | ⟨_, _, .ok _⟩, ⟨_, _, .error _⟩ => isFalse (by simp)
  | ⟨_, _, .error _⟩, ⟨_, _, .ok _⟩ => isFalse (by simp)

def ToolFinding.isUsable (s : ToolFinding) : Bool := s.outcome.isOk

/-- What is known about the tools of a run. -/
structure Inventory where
  analyzer : ToolFinding
  exporter : ToolFinding
  deriving DecidableEq

namespace Inventory

def isComplete (c : Inventory) : Bool := c.analyzer.isUsable && c.exporter.isUsable

/-- The tools of a run; the first unusable one is the error. -/
def toolchain (c : Inventory) : Except MissingTool Toolchain := do
  let analyzer ← c.analyzer.outcome
  let exporter ← c.exporter.outcome
  .ok ⟨analyzer.tool, exporter.tool⟩

end Inventory

namespace Host

/-- What a tool answers to a flag, without blanks at the ends; or why it does not. -/
def query (host : Host) (tool : Tool) (flag : String) (limit : Nat) : Effect String String := do
  let out ← (host.run tool.name ⟨tool.path, [flag], none⟩ none (some limit)).mapError
    ChildError.message
  if out.status.success then pure (Text.trim out.stdout)
  else
    throw ("`" ++ tool.name ++ " " ++ flag ++ "` returned error: " ++ Text.trim out.stderr)

/-- The version of an analyzer. -/
def analyzerVersion (host : Host) (tool : Tool) (limit : Nat) : Effect MissingTool String :=
  (host.query tool "--version" limit).mapError fun reason => ⟨tool.role, tool.name, reason⟩

/-- The version of the exporter, or nothing if it only answers with its help. -/
def exporterVersion (host : Host) (tool : Tool) (limit : Nat) :
    Effect MissingTool (Option String) := do
  match ← (host.query tool "--version" limit).outcome with
  | .ok version => pure (some version)
  | .error _ =>
    let _ ← (host.query tool "--help" limit).mapError fun reason =>
      (⟨tool.role, tool.name, reason⟩ : MissingTool)
    pure none

/-- Asks a tool by its role. -/
def probe (host : Host) (tool : Tool) (limit : Nat) : Effect MissingTool (Option String) :=
  match tool.role with
  | .analyzer _ => some <$> host.analyzerVersion tool limit
  | .exporter => host.exporterVersion tool limit

/-- Finds and asks a tool. -/
def inspectTool (host : Host) (role : Role) (name : String) (limit : Nat) :
    Effect Empty ToolFinding := do
  match ← Effect.look (host.findTool · role name) with
  | .error e => pure ⟨role, name, .error e⟩
  | .ok tool =>
    match ← (host.probe tool limit).outcome with
    | .error e => pure ⟨role, name, .error e⟩
    | .ok version => pure ⟨role, name, .ok ⟨tool, version⟩⟩

/-- Finds and asks the tools of a run. -/
def takeInventory (host : Host) (settings : Settings) (kind : Analyzer) :
    Effect Empty Inventory := do
  let limit := settings.probeLimit
  let analyzer ← host.inspectTool (.analyzer kind) (settings.analyzerProgram kind) limit
  let exporter ← host.inspectTool .exporter settings.tools.exporter limit
  pure ⟨analyzer, exporter⟩

end Host

end CodeIndex

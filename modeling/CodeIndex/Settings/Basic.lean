import CodeIndex.Toml.Printer
import CodeIndex.Tool.Role

/-!
# Settings

* `Settings` : all that can be configured, with its defaults;
* `Settings.toolLimit?`, `Settings.probeLimit` : limits in milliseconds;
* `Settings.document` : the settings as a document that can be loaded again.
-/

namespace CodeIndex

/-- The names or paths of the tools, and the analyzers' subcommand. -/
structure ToolNames where
  primary : String := "verus-analyzer"
  secondary : String := "rust-analyzer"
  exporter : String := "scip"
  analyzerSubcommand : String := "scip"
  deriving Repr, DecidableEq

/-- All that can be configured. Timeouts are in seconds; no seconds for the tools means no
limit. -/
structure Settings where
  defaultAnalyzer : String := "primary"
  indexExtension : String := "scip"
  jsonFileName : String := "index_scip.json"
  tempPrefix : String := "scip_analysis_"
  timeoutSecs : Nat := 0
  probeTimeoutSecs : Nat := 10
  copyExclude : List String := []
  tools : ToolNames := {}
  deriving Repr, DecidableEq

namespace Settings

/-- The name of the program for an analyzer. -/
def analyzerProgram (s : Settings) : Analyzer → String
  | .primary => s.tools.primary
  | .secondary => s.tools.secondary

/-- The limit for a tool in seconds, by the given one if there is one. -/
def toolSeconds? (s : Settings) (given : Option Nat) : Option Nat :=
  match given.getD s.timeoutSecs with
  | 0 => none
  | secs => some secs

/-- The limit for a tool in milliseconds. -/
def toolLimit? (s : Settings) (given : Option Nat) : Option Nat :=
  (s.toolSeconds? given).map (· * 1000)

/-- The limit for a probe in seconds, one at least. -/
def probeSeconds (s : Settings) : Nat := max s.probeTimeoutSecs 1

/-- The limit for a probe in milliseconds. -/
def probeLimit (s : Settings) : Nat := s.probeSeconds * 1000

/-- The settings as named values. -/
def toTable (s : Settings) : TomlTable :=
  [("default_analyzer", .text s.defaultAnalyzer),
   ("index_extension", .text s.indexExtension),
   ("json_file_name", .text s.jsonFileName),
   ("temp_prefix", .text s.tempPrefix),
   ("timeout_secs", .integer (Int.ofNat s.timeoutSecs)),
   ("probe_timeout_secs", .integer (Int.ofNat s.probeTimeoutSecs)),
   ("copy_exclude", .array (s.copyExclude.map .text)),
   ("tools", .table
     [("primary", .text s.tools.primary),
      ("secondary", .text s.tools.secondary),
      ("exporter", .text s.tools.exporter),
      ("analyzer_subcommand", .text s.tools.analyzerSubcommand)])]

/-- The settings as a document. -/
def document (s : Settings) : String := Toml.document s.toTable

end Settings

end CodeIndex

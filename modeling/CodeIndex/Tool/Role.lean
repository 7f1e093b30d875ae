import CodeIndex.Text.Blank

/-!
# Roles of tools

An index is made by one of two analyzers and exported by an exporter.

* `Analyzer` : which analyzer, with the names it goes by;
* `Role` : the part a tool plays.
-/

namespace CodeIndex

/-- Which of the two analyzers. -/
inductive Analyzer
  | primary
  | secondary
  deriving Repr, DecidableEq

namespace Analyzer

/-- The name that settings and reports use. -/
def name : Analyzer → String
  | .primary => "primary"
  | .secondary => "secondary"

/-- What counts of an analyzer's name: neither blanks around it nor its case. -/
def normalized (s : String) : String := Text.lowerAscii (Text.trim s)

/-- The analyzer that a normalized name means. -/
def ofName? (s : String) : Option Analyzer :=
  if s = "primary" ∨ s = "verus-analyzer" ∨ s = "verus" then some .primary
  else if s = "secondary" ∨ s = "rust-analyzer" then some .secondary
  else none

end Analyzer

/-- The part a tool plays. -/
inductive Role
  | analyzer (kind : Analyzer)
  | exporter
  deriving Repr, DecidableEq

namespace Role

def text : Role → String
  | .analyzer kind => kind.name ++ " analyzer"
  | .exporter => "SCIP exporter"

/-- What to run when the tool is missing. -/
def advice : Role → String
  | .analyzer .primary => "./verus_analyzer_installer.py"
  | .analyzer .secondary => "./rust_analyzer_installer.py"
  | .exporter => "./scip_installer.py"

end Role

end CodeIndex

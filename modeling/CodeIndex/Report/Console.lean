import CodeIndex.Job.Event

/-!
# Console

* `Line` : a line on one of the two output streams;
* `Console` : how progress is shown;
* `Console.linesOf` : the lines for an event.
-/

namespace CodeIndex

/-- An output stream. -/
inductive Stream
  | output
  | diagnostic
  deriving Repr, DecidableEq

/-- A line on a stream, which may itself have several. -/
structure Line where
  stream : Stream
  text : String
  deriving Repr, DecidableEq

/-- All that was written to a stream. -/
def writtenTo (stream : Stream) (lines : List Line) : String :=
  String.join ((lines.filter (·.stream = stream)).map fun l => l.text ++ "\n")

/-- How progress is shown: whether only what matters, in colour, and on which stream. -/
structure Console where
  quiet : Bool
  color : Bool
  toDiagnostic : Bool
  deriving Repr, DecidableEq

namespace Console

/-- A text in a colour of the terminal. -/
def painted (code : String) (reset : String) (text : String) : String :=
  "\x1b[" ++ code ++ "m" ++ text ++ "\x1b[" ++ reset ++ "m"

def checkMark (c : Console) : String := if c.color then painted "32" "39" "✓" else "✓"

def warningMark (c : Console) : String := if c.color then painted "33" "39" "⚠" else "⚠"

def crossMark (c : Console) : String := if c.color then painted "31" "39" "✗" else "✗"

/-- A line that is always shown. -/
def line (c : Console) (text : String) : List Line :=
  [⟨if c.toDiagnostic then .diagnostic else .output, text⟩]

/-- A line that a quiet console leaves out. -/
def note (c : Console) (text : String) : List Line := if c.quiet then [] else c.line text

/-- A title between rules. -/
def heading (c : Console) (title : String) : List Line :=
  let rule := String.ofList (List.replicate 60 '=')
  let title := if c.color then painted "1" "0" title else title
  c.note "" ++ c.note rule ++ c.note title ++ c.note rule

/-- The lines for an event. Warnings and failures are always shown, as diagnostics. -/
def linesOf (c : Console) : Event → List Line
  | .started stage =>
    c.note ("\n" ++ Text.natText stage.ordinal ++ ". " ++ stage.title ++ "...")
  | .info text => c.note text
  | .warning text => [⟨.diagnostic, c.warningMark ++ " " ++ text⟩]
  | .finished _ detail => c.note (c.checkMark ++ " " ++ detail)
  | .failed stage message =>
    [⟨.diagnostic, c.crossMark ++ " " ++ stage.title ++ " failed: " ++ message⟩]

/-- The lines for the events of a run. -/
def linesOfAll (c : Console) (events : List Event) : List Line := events.flatMap c.linesOf

end Console

end CodeIndex

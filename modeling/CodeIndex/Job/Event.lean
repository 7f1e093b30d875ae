import CodeIndex.Export
import CodeIndex.Job.Stage

/-!
# What a run tells

* `StageError` : the failure of a stage;
* `Event` : what an observer of a run learns, in order.
-/

namespace CodeIndex

/-- The failure of a stage. -/
inductive StageError
  | copying (cause : CopyError)
  | analyzing (cause : IndexingError)
  | converting (cause : ExportError)
  deriving Repr, DecidableEq

namespace StageError

/-- The stage that failed. -/
def stage : StageError → Stage
  | .copying _ => .copying
  | .analyzing _ => .analyzing
  | .converting _ => .converting

/-- The message of the cause. -/
def causeMessage : StageError → String
  | .copying e => e.message
  | .analyzing e => e.message
  | .converting e => e.message

def message (e : StageError) : String := e.stage.name ++ " failed: " ++ e.causeMessage

/-- The messages of what caused the error. -/
def causes (e : StageError) : List String :=
  e.causeMessage ::
    match e with
    | .copying e => e.causes
    | .analyzing e => e.causes
    | .converting e => e.causes

end StageError

/-- What an observer of a run learns. -/
inductive Event
  | started (stage : Stage)
  | info (text : String)
  | warning (text : String)
  | finished (stage : Stage) (detail : String)
  | failed (stage : Stage) (message : String)
  deriving Repr, DecidableEq

end CodeIndex

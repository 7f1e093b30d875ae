/-!
# Stages

A run copies the project, analyzes the copy and converts the index, in this order.
-/

namespace CodeIndex

/-- A stage of a run. -/
inductive Stage
  | copying
  | analyzing
  | converting
  deriving Repr, DecidableEq

namespace Stage

/-- The place of the stage in the order. -/
def ordinal : Stage → Nat
  | .copying => 1
  | .analyzing => 2
  | .converting => 3

/-- What the stage is called in headings. -/
def title : Stage → String
  | .copying => "Copying project"
  | .analyzing => "Running SCIP analysis"
  | .converting => "Exporting SCIP index to JSON"

/-- What the stage is called in messages and reports. -/
def name : Stage → String
  | .copying => "copying"
  | .analyzing => "analyzing"
  | .converting => "converting"

end Stage

/-- How far a job has come. -/
inductive JobState
  | idle
  | running (stage : Stage)
  | done
  | failed (stage : Stage)
  deriving Repr, DecidableEq

end CodeIndex

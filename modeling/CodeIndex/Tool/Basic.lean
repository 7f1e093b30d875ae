import CodeIndex.Path
import CodeIndex.Tool.Role

/-!
# Tools

* `Tool` : a tool that has been found;
* `MissingTool` : a tool that cannot be used, and why.
-/

namespace CodeIndex

/-- A tool that has been found. The name is the configured one. -/
structure Tool where
  role : Role
  name : String
  path : Path
  deriving Repr, DecidableEq

/-- The two tools of a run. -/
structure Toolchain where
  analyzer : Tool
  exporter : Tool
  deriving Repr, DecidableEq

/-- A tool that cannot be found or gives no answer. -/
structure MissingTool where
  role : Role
  name : String
  reason : String
  deriving Repr, DecidableEq

def MissingTool.message (e : MissingTool) : String :=
  e.role.text ++ " `" ++ e.name ++ "` is not available: " ++ e.reason ++
    "\n  Install it using: " ++ e.role.advice

end CodeIndex

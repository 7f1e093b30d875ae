import CodeIndex.FileSystem.Lookup
import CodeIndex.Settings.Error
import CodeIndex.Tool.Role

/-!
# What is asked of a run

* `Request.check` : the request for a project, if there is such a directory.
-/

namespace CodeIndex

/-- What may be said about a run. The limit for each tool is in milliseconds. -/
structure RequestOptions where
  destination : Option Path
  jsonOutput : Option Path
  keepCopy : Bool
  timeout : Option Nat
  deriving Repr, DecidableEq

/-- What is asked of a run. The source is a directory without links on its way, and the
output is absolute. -/
structure Request where
  source : Path
  analyzer : Analyzer
  destination : Option Path
  jsonOutput : Option Path
  keepCopy : Bool
  timeout : Option Nat
  deriving Repr, DecidableEq

/-- The failure of making an empty path absolute. -/
def emptyPath : IoError := .custom "cannot make an empty path absolute"

/-- A path seen from the root of the file system. -/
def absolutePath (cwd : Place) (p : Path) : Except IoError Path :=
  if p.text.isEmpty then .error emptyPath
  else .ok (Path.absolute (FileSystem.pathOf cwd) p)

/-- The request for a project. -/
def Request.check (fs : FileSystem) (cwd : Place) (source : Path)
    (analyzer : Analyzer) (options : RequestOptions) : Except SetupError Request :=
  match fs.stat cwd source true with
  | .error _ => .error (.projectMissing source)
  | .ok (place, .dir _) =>
    let request (output : Option Path) : Request :=
      ⟨FileSystem.pathOf place, analyzer, options.destination, output, options.keepCopy,
        options.timeout⟩
    match options.jsonOutput with
    | none => .ok (request none)
    | some p =>
      match absolutePath cwd p with
      | .ok p => .ok (request (some p))
      | .error e => .error (.unresolved p e)
  | .ok _ => .error (.projectIsFile source)

end CodeIndex

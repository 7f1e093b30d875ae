import CodeIndex.Job.Request
import CodeIndex.WorkingCopy.Error

/-!
# Destinations

A destination may not exist yet. Its deepest ancestor that exists is resolved, and the remaining
names are put after it.

* `FileSystem.settledDestination` : a destination without links and dots on its way;
* `overlaps` : whether one of two paths contains the other.
-/

namespace CodeIndex

/-- Climbs from a path to the first ancestor that exists. The names left behind come back first
to last. -/
def FileSystem.climb (fs : FileSystem) (cwd : Place) :
    (fuel : Nat) → Path → List String → Path × List String
  | 0, path, names => (path, names)
  | fuel + 1, path, names =>
    if fs.pathExists cwd path then (path, names)
    else
      match path.parent?, path.fileName? with
      | some parent, some name => climb fs cwd fuel parent (name :: names)
      | _, _ => (path, names)

/-- The destination without links and dots on its way. -/
def FileSystem.settledDestination (fs : FileSystem) (cwd : Place) (destination : Path) :
    Except CopyError Path :=
  match absolutePath cwd destination with
  | .error e => .error (.unresolved destination e)
  | .ok path =>
    let (existing, names) := fs.climb cwd path.components.length path []
    match fs.canonical cwd existing with
    | .error e => .error (.unresolved destination e)
    | .ok place => .ok (names.foldl Path.child (FileSystem.pathOf place))

/-- Whether one of two paths contains the other. -/
def overlaps (p q : Path) : Bool := p.startsWith q || q.startsWith p

end CodeIndex

import CodeIndex.Child.Locate
import CodeIndex.Tool.Basic

/-!
# Finding tools

* `searchCandidates` : the places where a tool may be, in order;
* `Host.findTool` : the first of them that is an executable file.
-/

namespace CodeIndex

/-- A path seen from the working directory. Only what begins with `.` is cleaned up; an absolute
path stays as it is written. -/
def fromHere (cwd : Place) (p : Path) : Path :=
  if p.isAbsolute then p
  else
    (p.components.filter (· != .current)).foldl (fun q c => q.join ⟨c.text⟩)
      (FileSystem.pathOf cwd)

/-- A directory of the search path, with the home directory in place of a leading `~`. -/
def expandHome (home : Option String) (dir : Path) : Path :=
  match dir.components, home with
  | .name "~" :: rest, some h =>
    rest.foldl (fun q c => q.join ⟨c.text⟩) ⟨h⟩
  | _, _ => dir

/-- Where a tool may be: at its name if that has several steps, else in the directories of the
search path. -/
def searchCandidates (host : Host) (name : String) : List Path :=
  let path : Path := ⟨name⟩
  if path.components.length > 1 then [fromHere host.cwd path]
  else
    match host.var? "PATH" with
    | none => []
    | some dirs =>
      (searchDirectories dirs).map fun dir =>
        fromHere host.cwd ((expandHome (host.var? "HOME") dir).join path)

/-- The tool of a name. -/
def Host.findTool (host : Host) (fs : FileSystem) (role : Role) (name : String) :
    Except MissingTool Tool :=
  match (searchCandidates host name).find? fun p => fs.isExecutable host.cwd p with
  | some path => .ok ⟨role, name, path⟩
  | none => .error ⟨role, name, "not found in PATH (cannot find binary path)"⟩

end CodeIndex

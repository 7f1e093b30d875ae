import CodeIndex.Glob.Parser
import CodeIndex.Settings.Basic
import CodeIndex.WorkingCopy.Destination
import CodeIndex.WorkingCopy.Fill

/-!
# Working copies

A working copy is a copy of a project in which the analyzer may write. It is either in a
temporary directory, which is removed after the run, or below a destination that the user chose,
which never is.

* `Host.makeWorkingCopy` : copies a project to a new place;
* `Host.dispose` : removes the temporary directory of a copy, if it may be removed.
-/

namespace CodeIndex

/-- Where a working copy is. -/
inductive Placement
  | temporary (tempRoot : Path)
  | chosen (destination : Path)
  deriving Repr, DecidableEq

/-- The copy of a project. -/
structure WorkingCopy where
  path : Path
  placement : Placement
  deriving Repr, DecidableEq

def WorkingCopy.isTemporary (w : WorkingCopy) : Bool :=
  match w.placement with
  | .temporary _ => true
  | .chosen _ => false

namespace Host

/-- The path of the temporary directory with a name drawn for it. -/
def tempPath (host : Host) (start : String) (draw : Nat) : Path :=
  (Path.join (FileSystem.pathOf host.cwd) host.tempDir).child (start ++ host.tempNames draw)

/-- Makes a temporary directory under the first drawn name that is free. -/
def makeTempDir (host : Host) (start : String) :
    (draws : Nat) → (draw : Nat) → Effect CopyError Path
  | 0, _ => throw (.noTempDir (.custom "too many temporary files exist"))
  | draws + 1, draw => fun fs =>
    let path := host.tempPath start draw
    match fs.createDir host.cwd path 0o700 with
    | .ok fs' => (.ok path, fs')
    | .error e =>
      if e = .alreadyExists then host.makeTempDir start draws (draw + 1) fs
      else (.error (.noTempDir (.located e path)), fs)

/-- How many names are drawn for a temporary directory. -/
def maxDraws : Nat := 65536

/-- Removes what stands where a copy is to be. -/
def clear (host : Host) (path : Path) : Effect CopyError Unit := fun fs =>
  if (fs.stat host.cwd path false).isOk then
    Effect.change (fun e : Errno => .notRemoved path e) (·.removeEntry host.cwd path) fs
  else (.ok (), fs)

/-- Makes a place below a destination for the copy of a project of the given name. Nothing of an
earlier copy stays, and the project itself must not be in the way. -/
def placeBelow (host : Host) (given source : Path) (name : String) :
    Effect CopyError WorkingCopy := do
  let destination ← Effect.examine (·.settledDestination host.cwd given)
  let path := destination.child name
  if overlaps path source then throw (.overlap path source)
  host.clear path
  Effect.attempt (.noDirectory destination ·) (·.createDirs host.cwd destination)
  pure ⟨path, .chosen destination⟩

/-- Makes a place for the copy of a project of the given name. -/
def placeWorkingCopy (host : Host) (request : Request) (settings : Settings)
    (name : String) : Effect CopyError WorkingCopy :=
  match request.destination with
  | none => do
    let root ← host.makeTempDir settings.tempPrefix maxDraws 0
    pure ⟨root.child name, .temporary root⟩
  | some given => host.placeBelow given request.source name

/-- The name of the project at a path that has to be a directory. -/
def projectName (host : Host) (fs : FileSystem) (source : Path) : Except CopyError String :=
  if !fs.pathExists host.cwd source then .error (.noSource source)
  else if !fs.isDir host.cwd source then .error (.sourceIsFile source)
  else
    match source.fileName? with
    | some name => .ok name
    | none => .error (.unnamedProject source)

/-- The exclusion that patterns describe. -/
def exclusion (patterns : List String) : Except CopyError Exclusion :=
  ((Globs.parse patterns).map Globs.excludes).mapError .badPattern

/-- Removes the temporary directory of a copy that cannot be completed. -/
def abandon (host : Host) (copy : WorkingCopy) (e : CopyError) : Effect CopyError WorkingCopy := do
  match copy.placement with
  | .temporary root => Effect.ignoring (Effect.change id (·.removeTree host.cwd root))
  | .chosen _ => pure ()
  throw e

/-- Copies a project to the place that has been made for it. -/
def fillWorkingCopy (host : Host) (skip : Exclusion) (source : Path) (copy : WorkingCopy) :
    Effect CopyError WorkingCopy := do
  match ← (FileSystem.copyBelow host.cwd skip source copy.path).outcome with
  | .ok () => pure copy
  | .error e => host.abandon copy e

/-- All that comes before a project is copied: its place is made. Exclusions are looked at before
that. -/
def prepareCopy (host : Host) (skip : Except CopyError Exclusion) (request : Request)
    (settings : Settings) : Effect CopyError (Exclusion × WorkingCopy) := do
  let name ← Effect.examine (host.projectName · request.source)
  let skip ← Effect.examine fun _ => skip
  let copy ← host.placeWorkingCopy request settings name
  pure (skip, copy)

/-- Copies a project to a new place, leaving out what is excluded. A temporary directory does not
outlive a failure. -/
def copyProject (host : Host) (skip : Except CopyError Exclusion) (request : Request)
    (settings : Settings) : Effect CopyError WorkingCopy := do
  let (skip, copy) ← host.prepareCopy skip request settings
  host.fillWorkingCopy skip request.source copy

/-- Copies a project to a new place, with the patterns of the settings. -/
def makeWorkingCopy (host : Host) (request : Request) (settings : Settings) :
    Effect CopyError WorkingCopy :=
  host.copyProject (exclusion settings.copyExclude) request settings

end Host

/-- What became of a working copy. A notice is due where the user has not asked for the copy to be
kept. -/
inductive Disposal
  | removed (tempRoot : Path)
  | kept (path : Path) (notice : Bool)
  | stuck (tempRoot : Path) (cause : IoError)
  deriving Repr, DecidableEq

/-- Removes a temporary copy unless it is to be kept. A chosen destination stays. -/
def Host.dispose (host : Host) (copy : WorkingCopy) (keepCopy : Bool) :
    StateM FileSystem Disposal := fun fs =>
  match copy.placement with
  | .temporary root =>
    if keepCopy then (.kept copy.path false, fs)
    else
      match fs.removeTree host.cwd root with
      | .ok fs' => (.removed root, fs')
      | .error e => (.stuck root e, fs)
  | .chosen _ => (.kept copy.path !keepCopy, fs)

end CodeIndex

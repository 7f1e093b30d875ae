import CodeIndex.FileSystem.Lookup

/-!
# Changing file systems

Making, writing and removing entries named by paths. An operation on one entry either happens or
leaves everything as it was; `createDirs`, which makes several, says how far it came.
-/

namespace CodeIndex

/-- An open file that is written to. -/
inductive OpenFile
  | file (id : Nat)
  | discard
  deriving Repr, DecidableEq

namespace FileSystem

/-- The path without the slashes at its end. -/
def withoutEndSlashes (path : Path) : Path :=
  let cs := (path.text.toList.reverse.dropWhile (· == '/')).reverse
  if cs.isEmpty then path else ⟨String.ofList cs⟩

/-- Makes a directory. -/
def createDir (fs : FileSystem) (cwd : Place) (path : Path) (mode : Nat) :
    Except Errno FileSystem :=
  match fs.lookup cwd (withoutEndSlashes path) false with
  | .ok (.vacant p) => .ok (fs.put p (.dir mode))
  | .ok (.entry _ _) => .error .alreadyExists
  | .error e => .error e

/-- Makes a directory unless there is one. -/
def ensureDir (fs : FileSystem) (cwd : Place) (path : Path) : Except Errno FileSystem :=
  match fs.createDir cwd path dirMode with
  | .ok fs' => .ok fs'
  | .error e => if fs.isDir cwd path then .ok fs else .error e

/-- Makes the first path of the list a directory, and before it, if need be, the others, which
are its ancestors. -/
def createDirsOf (fs : FileSystem) (cwd : Place) : List Path → FileSystem × Option Errno
  | [] => (fs, none)
  | path :: ancestors =>
    if path.text.isEmpty then (fs, none)
    else
      match fs.ensureDir cwd path with
      | .ok fs' => (fs', none)
      | .error e =>
        if e = .noEntry then
          match createDirsOf fs cwd ancestors with
          | (fs', some e) => (fs', some e)
          | (fs', none) =>
            match fs'.ensureDir cwd path with
            | .ok fs'' => (fs'', none)
            | .error e => (fs', some e)
        else (fs, some e)

/-- Makes a directory and those above it that are missing. Directories made before a failure
stay. -/
def createDirs (fs : FileSystem) (cwd : Place) (path : Path) : FileSystem × Option Errno :=
  fs.createDirsOf cwd path.ancestors

/-- Opens a file for writing: a new one is made, an old one emptied. -/
def openWrite (fs : FileSystem) (cwd : Place) (path : Path) (mode : Nat) :
    Except Errno (FileSystem × OpenFile) :=
  let bare := withoutEndSlashes path
  match fs.lookup cwd bare true with
  | .error e => .error e
  | .ok found =>
    if bare ≠ path then .error .isDirectory
    else
      match found with
      | .vacant p => .ok (fs.putNewFile p mode, .file fs.next)
      | .entry _ (.file id _ _) => .ok (fs.truncate id, .file id)
      | .entry _ (.device _) => .ok (fs, .discard)
      | .entry _ _ => .error .isDirectory

/-- Opens a file for adding at its end: a new one is made. -/
def openAppend (fs : FileSystem) (cwd : Place) (path : Path) (mode : Nat) :
    Except Errno (FileSystem × OpenFile) :=
  match fs.lookup cwd path true with
  | .ok (.entry _ (.file id _ _)) => .ok (fs, .file id)
  | _ => fs.openWrite cwd path mode

/-- Writes bytes to an open file. -/
def write (fs : FileSystem) (sink : OpenFile) (bytes : List UInt8) : FileSystem :=
  match sink with
  | .file id => fs.append id bytes
  | .discard => fs

/-- Makes or replaces a file with the given bytes. -/
def writeFile (fs : FileSystem) (cwd : Place) (path : Path) (bytes : List UInt8) :
    Except Errno FileSystem :=
  (fs.openWrite cwd path fileMode).map fun (fs', sink) => fs'.write sink bytes

/-- Sets the permission bits of what a path leads to. -/
def setMode (fs : FileSystem) (cwd : Place) (path : Path) (mode : Nat) :
    Except Errno FileSystem :=
  match fs.stat cwd path true with
  | .ok (_, .file id _ _) => .ok (fs.mapFile id fun (_, bytes) => (mode, bytes))
  | .ok (p, .dir _) => .ok (fs.put p (.dir mode))
  | .ok _ => .ok fs
  | .error e => .error e

/-- Copies a file with its permission bits. -/
def copyFile (fs : FileSystem) (cwd : Place) (source target : Path) : Except Errno FileSystem :=
  match fs.stat cwd source true with
  | .ok (_, .file _ mode bytes) =>
    match fs.openWrite cwd target mode with
    | .ok (fs', sink) => (fs'.write sink bytes).setMode cwd target mode
    | .error e => .error e
  | .ok (_, .dir _) => .error .isDirectory
  | .ok _ => (fs.openWrite cwd target fileMode).map Prod.fst
  | .error e => .error e

/-- Makes a symbolic link. -/
def createLink (fs : FileSystem) (cwd : Place) (target : Path) (path : Path) :
    Except Errno FileSystem :=
  if target.text.isEmpty then .error .noEntry
  else
    match fs.lookup cwd path false with
    | .ok (.vacant p) => .ok (fs.put p (.link target))
    | .ok (.entry _ _) => .error .alreadyExists
    | .error e => .error e

/-- The target of a symbolic link. -/
def readLink (fs : FileSystem) (cwd : Place) (path : Path) : Except Errno Path :=
  match fs.stat cwd path false with
  | .ok (_, .link target) => .ok target
  | .ok _ => .error .invalid
  | .error e => .error e

/-- Removes what is not a directory. -/
def removeFile (fs : FileSystem) (cwd : Place) (path : Path) : Except Errno FileSystem :=
  match fs.stat cwd path false with
  | .ok (_, .dir _) => .error .isDirectory
  | .ok (p, _) => .ok (fs.erase p)
  | .error e => .error e

/-- Removes a directory with all it holds. A symbolic link is removed itself. -/
def removeTree (fs : FileSystem) (cwd : Place) (path : Path) : Except Errno FileSystem :=
  match fs.stat cwd path false with
  | .ok (p, .dir _) => .ok (fs.eraseTree p)
  | .ok (p, .link _) => .ok (fs.erase p)
  | .ok _ => .error .notDirectory
  | .error e => .error e

/-- Removes whatever is there. -/
def removeEntry (fs : FileSystem) (cwd : Place) (path : Path) : Except Errno FileSystem :=
  match fs.stat cwd path false with
  | .ok (_, .dir _) => fs.removeTree cwd path
  | .ok _ => fs.removeFile cwd path
  | .error e => .error e

/-- Moves an entry to another path, replacing a file there. -/
def rename (fs : FileSystem) (cwd : Place) (source target : Path) : Except Errno FileSystem :=
  match fs.stat cwd source false, fs.lookup cwd (withoutEndSlashes target) false with
  | .error e, _ => .error e
  | _, .error e => .error e
  | .ok (p, _), .ok (.vacant q) =>
    if p.isPrefixOf q then .error .invalid else .ok (fs.moveTree p q)
  | .ok (p, e), .ok (.entry q old) =>
    if p = q then .ok fs
    else if p.isPrefixOf q then .error .invalid
    else
      match e.isDir, old.isDir with
      | true, false => .error .notDirectory
      | false, true => .error .isDirectory
      | true, true => if (fs.names q).isEmpty then .ok (fs.moveTree p q) else .error .notEmpty
      | false, false => .ok (fs.moveTree p q)

end FileSystem

end CodeIndex

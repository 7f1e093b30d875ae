import CodeIndex.FileSystem.Basic
import CodeIndex.IoError

/-!
# Looking up paths

`FileSystem.lookup` walks a path through the directories of a file system. It follows symbolic
links, at most forty of them, and says where the path ends: at an entry, or at a free place in an
existing directory. Everything that asks about a path (`exists?`, `isFile`, `canonical?`) goes
through it.
-/

namespace CodeIndex

/-- Where a path ends. -/
inductive Found
  | entry (place : Place) (entry : Entry)
  | vacant (place : Place)
  deriving Repr, DecidableEq

/-- The place, whether something is there or not. -/
def Found.place : Found → Place
  | .entry p _ => p
  | .vacant p => p

namespace FileSystem

/-- The longest name of an entry, in bytes. -/
def maxName : Nat := 255

/-- The longest path, in bytes. -/
def maxPath : Nat := 4095

/-- The most symbolic links followed on one path. -/
def maxLinks : Nat := 40

/-- The names in a path, dots among them. -/
def namesOf (path : Path) : List String := (Path.pieces path.text).filter (· ≠ "")

/-- The names to walk for a path. A slash at the end asks for a directory, as `.` does. -/
def steps (path : Path) : List String :=
  if path.text.toList.getLast? = some '/' then namesOf path ++ ["."] else namesOf path

/-- Where the walk of a path begins, seen from a directory. -/
def origin (dir : Place) (path : Path) : Place := if path.isAbsolute then [] else dir

/-- Walks names from a directory. `onLink` goes on from a symbolic link, with the names of its
target put before the rest. -/
def advance (fs : FileSystem) (follow : Bool)
    (onLink : Place → List String → Except Errno Found) :
    Place → List String → Except Errno Found
  | dir, [] =>
    match fs.get? dir with
    | some e => .ok (.entry dir e)
    | none => .error .noEntry
  | dir, name :: rest =>
    match fs.get? dir with
    | none => .error .noEntry
    | some (.dir _) =>
      if name = "." then advance fs follow onLink dir rest
      else if name = ".." then advance fs follow onLink dir.dropLast rest
      else if maxName < name.utf8ByteSize then .error .nameTooLong
      else
        match fs.get? (dir ++ [name]) with
        | none => if rest.isEmpty then .ok (.vacant (dir ++ [name])) else .error .noEntry
        | some (.link target) =>
          if rest.isEmpty && !follow then .ok (.entry (dir ++ [name]) (.link target))
          else onLink (origin dir target) (steps target ++ rest)
        | some _ => advance fs follow onLink (dir ++ [name]) rest
    | some _ => .error .notDirectory

/-- Walks names, following as many links as `links` allows. -/
def walkSteps (fs : FileSystem) (follow : Bool) :
    (links : Nat) → Place → List String → Except Errno Found
  | 0 => fs.advance follow fun _ _ => .error .tooManyLinks
  | links + 1 => fs.advance follow (walkSteps fs follow links)

/-- Where a path ends, seen from the directory `cwd`. A link at the very end is followed if
`follow` is set. -/
@[irreducible] def lookup (fs : FileSystem) (cwd : Place) (path : Path) (follow : Bool) :
    Except Errno Found :=
  if path.text.isEmpty then .error .noEntry
  else if maxPath < path.text.utf8ByteSize then .error .nameTooLong
  else fs.walkSteps follow maxLinks (origin cwd path) (steps path)

/-- The entry a path names. -/
def stat (fs : FileSystem) (cwd : Place) (path : Path) (follow : Bool) :
    Except Errno (Place × Entry) :=
  match fs.lookup cwd path follow with
  | .ok (.entry p e) => .ok (p, e)
  | .ok (.vacant _) => .error .noEntry
  | .error e => .error e

/-- The entry a path names, links followed, if there is one. -/
def entry? (fs : FileSystem) (cwd : Place) (path : Path) : Option Entry :=
  match fs.stat cwd path true with
  | .ok (_, e) => some e
  | .error _ => none

/-- Whether a path leads to an entry. -/
def pathExists (fs : FileSystem) (cwd : Place) (path : Path) : Bool :=
  (fs.entry? cwd path).isSome

/-- Whether a path leads to a regular file. -/
def isFile (fs : FileSystem) (cwd : Place) (path : Path) : Bool :=
  (fs.entry? cwd path).any Entry.isFile

/-- Whether a path leads to a directory. -/
def isDir (fs : FileSystem) (cwd : Place) (path : Path) : Bool :=
  (fs.entry? cwd path).any Entry.isDir

/-- The place a path leads to. -/
def canonical (fs : FileSystem) (cwd : Place) (path : Path) : Except Errno Place :=
  (fs.stat cwd path true).map Prod.fst

/-- The path of a place. -/
def pathOf (p : Place) : Path := Path.ofNames p

/-- The number of bytes of the file a path leads to; directories and devices have none to
speak of. -/
def size (fs : FileSystem) (cwd : Place) (path : Path) : Except Errno Nat :=
  (fs.stat cwd path true).map fun (_, e) =>
    match e with
    | .file _ _ bytes => bytes.length
    | .dir _ => 4096
    | _ => 0

/-- The bytes of the file a path leads to. -/
def read (fs : FileSystem) (cwd : Place) (path : Path) : Except Errno (List UInt8) :=
  match fs.stat cwd path true with
  | .ok (_, .file _ _ bytes) => .ok bytes
  | .ok (_, .dir _) => .error .isDirectory
  | .ok _ => .ok []
  | .error e => .error e

end FileSystem

end CodeIndex

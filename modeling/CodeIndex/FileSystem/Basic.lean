import CodeIndex.Path

/-!
# File systems

A file system is a finite map from places to entries. A place is the list of names from the root
down, so `dropLast` is the directory it is in, and the entries below a directory are those whose
place it begins.

* `Entry` : directory, file, symbolic link or device;
* `FileSystem.get?`, `FileSystem.put`, `FileSystem.erase`, `FileSystem.eraseTree` : the map;
* `FileSystem.names` : what a directory lists, in an order of its own;
* `FileSystem.isDirAt` : whether a directory stands at a place;
* `FileSystem.mapFile` : changing a file through its identity, as an open descriptor does, which
  follows the file and not its place;
* `FileSystem.Same` : equality of all that can be seen.

A file keeps an identity that no later file gets, which is what descriptors refer to.
-/

namespace CodeIndex

/-- The names from the root down to an entry. -/
abbrev Place := List String

/-- Files without contents of their own. -/
inductive Device
  | null
  | zero
  deriving Repr, DecidableEq

/-- What can stand at a place. Modes are permission bits; only those for execution restrict
anything, as the superuser is the one who reads and writes. -/
inductive Entry
  | dir (mode : Nat)
  | file (id : Nat) (mode : Nat) (bytes : List UInt8)
  | link (target : Path)
  | device (kind : Device)
  deriving Repr, DecidableEq

namespace Entry

def isDir : Entry → Bool
  | .dir _ => true
  | _ => false

def isFile : Entry → Bool
  | .file _ _ _ => true
  | _ => false

def isLink : Entry → Bool
  | .link _ => true
  | _ => false

/-- The identity of a file. -/
def fileId? : Entry → Option Nat
  | .file id _ _ => some id
  | _ => none

/-- Changes permission bits and bytes of a file, if it is the one meant. -/
def mapFile (id : Nat) (f : Nat × List UInt8 → Nat × List UInt8) : Entry → Entry
  | .file id' mode bytes =>
    if id' = id then .file id' (f (mode, bytes)).1 (f (mode, bytes)).2 else .file id' mode bytes
  | e => e

/-- Whether any execute bit is set. -/
def isExecutable : Entry → Bool
  | .file _ mode _ => mode &&& 0o111 != 0
  | _ => false

end Entry

/-- The permission bits of new directories. -/
def dirMode : Nat := 0o755

/-- The permission bits of new files. -/
def fileMode : Nat := 0o644

/-- A file system: entries at places, and the identity of the next new file. -/
structure FileSystem where
  entries : List (Place × Entry)
  next : Nat
  deriving Repr, DecidableEq

namespace FileSystem

/-- The file system that has only a root directory. -/
def empty : FileSystem := ⟨[], 0⟩

/-- The entry at a place. The root is always a directory. -/
def get? (fs : FileSystem) : Place → Option Entry
  | [] => some (.dir dirMode)
  | p => fs.entries.lookup p

/-- Whether a directory stands at a place. -/
def isDirAt (fs : FileSystem) (p : Place) : Bool := (fs.get? p).any Entry.isDir

/-- Two file systems that hold the same entries. -/
def Same (fs gs : FileSystem) : Prop := ∀ p, fs.get? p = gs.get? p

/-- Sets the entry at a place. -/
def put (fs : FileSystem) (p : Place) (e : Entry) : FileSystem :=
  { fs with entries := (p, e) :: fs.entries.filter (·.1 != p) }

/-- Removes the entry at a place. -/
def erase (fs : FileSystem) (p : Place) : FileSystem :=
  { fs with entries := fs.entries.filter (·.1 != p) }

/-- Removes the entry at a place and everything below it. -/
def eraseTree (fs : FileSystem) (p : Place) : FileSystem :=
  { fs with entries := fs.entries.filter (!p.isPrefixOf ·.1) }

/-- Puts a new, empty file at a place. -/
def putNewFile (fs : FileSystem) (p : Place) (mode : Nat) : FileSystem :=
  { (fs.put p (.file fs.next mode [])) with next := fs.next + 1 }

/-- The name of an entry directly in the directory `p`. -/
def nameIn? (p : Place) (q : Place) : Option String :=
  match q.getLast? with
  | some name => if q = p ++ [name] then some name else none
  | none => none

/-- The names in a directory, in the order in which it lists them. -/
def names (fs : FileSystem) (p : Place) : List String :=
  fs.entries.filterMap fun (q, _) => nameIn? p q

/-- The entries below a place, each with the names that lead to it from there. -/
def below (fs : FileSystem) (p : Place) : List (Place × Entry) :=
  fs.entries.filterMap fun (q, e) =>
    if p.isPrefixOf q && q != p then some (q.drop p.length, e) else none

/-- Moves the entry at `p` and everything below it to `q`. -/
def moveTree (fs : FileSystem) (p q : Place) : FileSystem :=
  let moved := (fs.get? p).toList.map (fun e => (q, e)) ++
    (fs.below p).map fun (r, e) => (q ++ r, e)
  let cleared := (fs.eraseTree p).eraseTree q
  { cleared with entries := moved ++ cleared.entries }

/-- Changes permission bits and bytes of the file with the given identity, wherever it is; nothing
happens if it is gone. -/
def mapFile (fs : FileSystem) (id : Nat) (f : Nat × List UInt8 → Nat × List UInt8) : FileSystem :=
  { fs with entries := fs.entries.map fun (q, e) => (q, e.mapFile id f) }

/-- Adds bytes to a file. -/
def append (fs : FileSystem) (id : Nat) (bytes : List UInt8) : FileSystem :=
  fs.mapFile id fun (mode, old) => (mode, old ++ bytes)

/-- Takes all bytes from a file. -/
def truncate (fs : FileSystem) (id : Nat) : FileSystem :=
  fs.mapFile id fun (mode, _) => (mode, [])

@[simp] theorem get?_root (fs : FileSystem) : fs.get? [] = some (.dir dirMode) := rfl

theorem Same.refl (fs : FileSystem) : Same fs fs := fun _ => rfl

theorem Same.symm {fs gs : FileSystem} (h : Same fs gs) : Same gs fs := fun p => (h p).symm

theorem Same.trans {fs gs hs : FileSystem} (h : Same fs gs) (h' : Same gs hs) : Same fs hs :=
  fun p => (h p).trans (h' p)

end FileSystem

end CodeIndex

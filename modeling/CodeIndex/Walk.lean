import CodeIndex.FileSystem.Lookup
import CodeIndex.Glob.Basic

/-!
# Walks through trees

A walk comes by the entries of a tree of directories, each directory before what is in it, in the
order in which directories list their entries. Symbolic links are come by and not followed. A
directory that is excluded is not entered, so it does not matter whether it can be read; the first
other one that cannot be read ends the walk.

* `FileTree`, `Folder` : what a walk finds, unreadable directories included;
* `Exclusion` : what is excluded, by the names that lead to it from the root of the walk;
* `FileTree.walk` : the entries that a walk comes by.
-/

namespace CodeIndex

/-- What a walk tells of an entry. Everything that is neither directory nor link counts as a
file. -/
inductive ListedKind
  | dir
  | file
  | link
  deriving Repr, DecidableEq

def Entry.kind : Entry → ListedKind
  | .dir _ => .dir
  | .link _ => .link
  | _ => .file

/-- An entry that a walk came by, with the names that lead to it from the root of the walk. -/
structure Listed where
  names : List String
  kind : ListedKind
  deriving Repr, DecidableEq

/-- The way to an entry, as a relative path. -/
def relativePath (names : List String) : Path := ⟨Text.joinWith "/" names⟩

def Listed.path (e : Listed) : Path := relativePath e.names

/-- The path that the names lead to from the root of a walk. -/
def Path.below (root : Path) (names : List String) : Path :=
  if names = [] then root else root.join (relativePath names)

/-- A walk that failed, and at which path if that is known. -/
structure ListingError where
  path : Option Path
  cause : IoError
  deriving Repr, DecidableEq

def ListingError.message (e : ListingError) : String :=
  match e.path with
  | some p => p.text ++ ": IO error for operation on " ++ p.text ++ ": " ++ e.cause.message
  | none => e.cause.message

/-- What a walk leaves out, by the names that lead to it. -/
abbrev Exclusion := List String → Bool

/-- The exclusion of what patterns match. -/
def Globs.excludes (globs : Globs) : Exclusion :=
  fun names => globs.isMatch (relativePath names).text

instance : Coe Globs Exclusion := ⟨Globs.excludes⟩

mutual

/-- What stands at a place, with all that is below it. -/
inductive FileTree
  | file
  | link
  /-- A directory that cannot be opened. -/
  | shut (cause : IoError)
  | dir (folder : Folder)

/-- The entries of a directory, in the order in which it lists them. -/
inductive Folder
  | done
  /-- Nothing more can be read. -/
  | broken (cause : IoError)
  | entry (name : String) (tree : FileTree) (rest : Folder)

end

def FileTree.kind : FileTree → ListedKind
  | .file => .file
  | .link => .link
  | .shut _ => .dir
  | .dir _ => .dir

/-- The directory that lists the given entries. -/
def Folder.ofList (entries : List (String × FileTree)) : Folder :=
  entries.foldr (fun (name, tree) rest => .entry name tree rest) .done

/-- Whether a directory is entered. The root of a walk always is. -/
def Exclusion.enters (skip : Exclusion) (names : List String) : Bool :=
  names.isEmpty || !skip names

mutual

/-- The entries that a walk comes by in a tree to which the names lead from its root. -/
def FileTree.walk (skip : Exclusion) (root : Path) (names : List String) :
    FileTree → Except ListingError (List Listed)
  | .file => .ok [⟨names, .file⟩]
  | .link => .ok [⟨names, .link⟩]
  | .shut cause => if skip.enters names then .error ⟨some (root.below names), cause⟩ else .ok []
  | .dir folder =>
    if skip.enters names then (folder.walk skip root names).map (⟨names, .dir⟩ :: ·) else .ok []

/-- The entries that a walk comes by in a directory to which the names lead. -/
def Folder.walk (skip : Exclusion) (root : Path) (names : List String) :
    Folder → Except ListingError (List Listed)
  | .done => .ok []
  | .broken cause => .error ⟨none, cause⟩
  | .entry name tree rest => do
    let first ← tree.walk skip root (names ++ [name])
    let others ← rest.walk skip root names
    pure (first ++ others)

end

namespace FileSystem

/-- How many names lead to the deepest entry. -/
def depth (fs : FileSystem) : Nat := fs.entries.foldr (fun (p, _) d => max p.length d) 0

/-- The tree at a place, as far down as the given depth. All directories can be read, as the
superuser is the one who reads. -/
def treeAt (fs : FileSystem) : (depth : Nat) → Place → Entry → FileTree
  | depth + 1, p, .dir _ =>
    .dir (Folder.ofList ((fs.names p).filterMap fun name =>
      (fs.get? (p ++ [name])).map fun e => (name, treeAt fs depth (p ++ [name]) e)))
  | 0, _, .dir _ => .dir .done
  | _, _, .link _ => .link
  | _, _, _ => .file

end FileSystem

end CodeIndex

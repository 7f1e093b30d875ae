import CodeIndex.Walk

/-!
# Listing trees

A listing has everything below a directory, except what is excluded. It is made by a walk, which
does not enter directories that are excluded; of the entries that are come by those that are
excluded are left out.

* `FileTree.listing` : the entries of a tree, ordered by the names that lead to them;
* `FileSystem.listing` : the entries below the directory that a path leads to;
* `FileSystem.listingByExtension` : the files of one extension, the shallowest first.
-/

namespace CodeIndex

/-- Puts an element before the first one that it may come before. -/
def insertBy {α : Type} (le : α → α → Bool) (a : α) : List α → List α
  | [] => [a]
  | b :: bs => if le a b then a :: b :: bs else b :: insertBy le a bs

/-- The elements in order. -/
def sortBy {α : Type} (le : α → α → Bool) (as : List α) : List α := as.foldr (insertBy le) []

/-- Names one by one, and a list of names before its extensions. -/
def namesLe : List String → List String → Bool
  | [], _ => true
  | _ :: _, [] => false
  | a :: as, b :: bs => if a = b then namesLe as bs else a < b

/-- The entries of a tree below its root that are come by and not excluded. -/
def FileTree.listing (skip : Exclusion) (root : Path) (tree : FileTree) :
    Except ListingError (List Listed) :=
  (tree.walk skip root []).map fun entries =>
    sortBy (fun a b => namesLe a.names b.names)
      (entries.filter fun e => !e.names.isEmpty && !skip e.names)

namespace FileSystem

/-- The entries below the directory that a path leads to, also by a link. Below a file there is
nothing. -/
def listing (fs : FileSystem) (cwd : Place) (skip : Exclusion) (root : Path) :
    Except ListingError (List Listed) :=
  match fs.stat cwd root true with
  | .error e => .error ⟨some root, e⟩
  | .ok (p, e) => (fs.treeAt fs.depth p e).listing skip root

/-- Fewer names first, then in order. -/
def shallowerLe (a b : List String) : Bool :=
  if a.length = b.length then namesLe a b else a.length < b.length

/-- The regular files of a listing whose name ends in a dot and `extension`. -/
def listingByExtension (fs : FileSystem) (cwd : Place) (skip : Exclusion) (root : Path)
    (extension : String) : Except ListingError (List Path) :=
  (fs.listing cwd skip root).map fun entries =>
    (sortBy shallowerLe ((entries.filter fun e =>
      e.kind = .file && e.path.extension? = some extension).map Listed.names)).map
        fun ns => root.join (relativePath ns)

end FileSystem

end CodeIndex

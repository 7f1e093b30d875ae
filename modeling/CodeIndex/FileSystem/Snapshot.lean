import CodeIndex.FileSystem.Update

/-!
# Whole trees at once

* `FileSystem.plant` : makes the files, directories and links of a list;
* `FileSystem.snapshot?` : all that is below a path, ordered by the text of the relative path.
-/

namespace CodeIndex

/-- Something to make at a path. -/
inductive Seed
  | dir
  | file (mode : Nat) (bytes : List UInt8)
  | link (target : Path)
  deriving Repr

namespace FileSystem

/-- Makes one thing, the directories above it first. A file that is there is overwritten. -/
def plantOne (fs : FileSystem) (cwd : Place) (path : Path) : Seed → Except Errno FileSystem
  | .dir =>
    match fs.createDirs cwd path with
    | (fs', none) => .ok fs'
    | (_, some e) => .error e
  | seed => do
    let fs ←
      match fs.createDirs cwd (path.parent?.getD ⟨""⟩) with
      | (fs', none) => pure fs'
      | (_, some e) => throw e
    match seed with
    | .dir => pure fs
    | .file mode bytes => (← fs.writeFile cwd path bytes).setMode cwd path mode
    | .link target => fs.createLink cwd target path

/-- Makes a directory and things below it. -/
def plant (fs : FileSystem) (cwd : Place) (root : Path) (seeds : List (String × Seed)) :
    Except Errno FileSystem := do
  let fs ← fs.plantOne cwd root .dir
  seeds.foldlM (fun fs (name, seed) => fs.plantOne cwd (root.child name) seed) fs

/-- What is below a path, by the text of the relative path; `none` if nothing is at the path.
There is nothing below a file. -/
def snapshot? (fs : FileSystem) (cwd : Place) (path : Path) : Option (List (String × Entry)) :=
  match fs.stat cwd path false with
  | .error _ => none
  | .ok _ =>
    match fs.stat cwd path true with
    | .ok (p, .dir _) =>
      some (((fs.below p).map fun (names, e) => (Text.joinWith "/" names, e)).mergeSort
        fun a b => a.1 ≤ b.1)
    | _ => some []

end FileSystem

end CodeIndex

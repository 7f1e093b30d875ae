import CodeIndex.Child.Host
import CodeIndex.WorkingCopy.Error

/-!
# Copying trees

* `FileSystem.copyRegular` : copies a file; devices have no bytes of their own to copy;
* `FileSystem.copyEntry` : copies one entry; links are made anew and not followed;
* `FileSystem.copyBelow` : copies everything that is not excluded.
-/

namespace CodeIndex

namespace FileSystem

/-- The failure of copying what is no regular file. -/
def notRegular : IoError :=
  .custom "the source path is neither a regular file nor a symlink to a regular file"

/-- Copies a file with its permission bits. -/
def copyRegular (fs : FileSystem) (cwd : Place) (source target : Path) :
    Except IoError FileSystem :=
  match fs.entry? cwd source with
  | none | some (.file _ _ _) => (fs.copyFile cwd source target).mapError IoError.os
  | some _ => .error notRegular

/-- Makes a link that has the target of another. -/
def copyLink (fs : FileSystem) (cwd : Place) (source target : Path) : Except Errno FileSystem := do
  fs.createLink cwd (← fs.readLink cwd source) target

/-- Copies an entry of a listing. Permission bits of files are kept. -/
def copyEntry (cwd : Place) (source target : Path) (kind : ListedKind) :
    Effect CopyError Unit :=
  let failed (e : IoError) : CopyError := .entryNotCopied source target e
  match kind with
  | .dir => Effect.attempt (failed ·) (·.createDirs cwd target)
  | .file => Effect.change failed (·.copyRegular cwd source target)
  | .link => Effect.change (fun e : Errno => failed e) (·.copyLink cwd source target)

/-- Copies entries from one tree to another until one fails. -/
def fillFrom (cwd : Place) (source target : Path) :
    List Listed → Effect CopyError Unit
  | [] => pure ()
  | e :: es => do
    copyEntry cwd (source.join e.path) (target.join e.path) e.kind
    fillFrom cwd source target es

/-- Copies what is below a directory. The listing is made when the target is there. -/
def copyBelow (cwd : Place) (skip : Exclusion) (source target : Path) :
    Effect CopyError Unit := do
  Effect.attempt (.noDirectory target ·) (·.createDirs cwd target)
  let entries ← Effect.examine fun fs => (fs.listing cwd skip source).mapError .unlisted
  fillFrom cwd source target entries

end FileSystem

end CodeIndex

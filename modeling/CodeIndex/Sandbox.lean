import CodeIndex.Child.Locate
import CodeIndex.FileSystem.Snapshot
import CodeIndex.Shell.Behaviour

/-!
# Sandboxes

A sandbox is a small system of its own: the standard utilities, and a private root with directories
for programs, the home, temporary files and work.

* `Sandbox.files` : the file system of a fresh sandbox;
* `Sandbox.host` : the surroundings it gives to a run.
-/

namespace CodeIndex

/-- What is asked of a sandbox: where its root is, and what stands in place of the usual working
directory, search path and directory for temporary files. -/
structure Sandbox where
  root : Path
  cwd : Option Path
  search : Option String
  tempDir : Option String
  deriving Repr

namespace Sandbox

/-- Makes what can be made of a list. -/
def plantAll (fs : FileSystem) (seeds : List (Path × Seed)) : FileSystem :=
  seeds.foldl (fun fs (path, seed) => ((fs.plantOne [] path seed).toOption).getD fs) fs

/-- The standard utilities and devices. -/
def system : FileSystem :=
  let program (name : String) : Path × Seed :=
    (⟨"/usr/bin/" ++ name⟩, .file 0o755 (machineCodeMark ++ Text.Utf8.encode name))
  let fs := plantAll FileSystem.empty
    (Shell.programNames.map program ++
      [(⟨"/bin"⟩, .link ⟨"usr/bin"⟩), (⟨"/dev"⟩, .dir), (⟨"/tmp"⟩, .dir),
       (⟨"/etc/hostname"⟩, .file fileMode (Text.Utf8.encode "sandbox\n"))])
  (fs.put ["dev", "null"] (.device .null)).put ["dev", "zero"] (.device .zero)

/-- The working directory. -/
def workDir (sb : Sandbox) : Path := sb.cwd.getD (sb.root.child "work")

/-- The file system of a fresh sandbox. -/
def files (sb : Sandbox) : FileSystem :=
  plantAll system
    ((["bin", "home", "tmp", "work"].map sb.root.child ++ [sb.workDir]).map fun p => (p, .dir))

/-- The place of the working directory. -/
def cwdPlace (sb : Sandbox) : Place := (sb.files.canonical [] sb.workDir).toOption.getD []

/-- The directory for temporary files, as it is given. -/
def tempPath (sb : Sandbox) : String := sb.tempDir.getD (sb.root.child "tmp").text

/-- The variables of a sandbox. -/
def environment (sb : Sandbox) : List (String × String) :=
  [("PATH", sb.search.getD ((sb.root.child "bin").text ++ ":/usr/bin:/bin")),
   ("TMPDIR", sb.tempPath),
   ("HOME", (sb.root.child "home").text)]

/-- Names of six letters and digits. -/
def tempName (n : Nat) : String :=
  let ds := Nat.toDigits 10 n
  String.ofList (List.replicate (6 - ds.length) 'x' ++ ds)

/-- The surroundings of a run, with further variables. -/
def host (sb : Sandbox) (extra : List (String × String)) : Host :=
  { cwd := sb.cwdPlace
    environment := extra ++ sb.environment
    tempNames := tempName
    behaviour := Shell.behaviour }

end Sandbox

end CodeIndex

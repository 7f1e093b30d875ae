import CodeIndex.Child.Host
import CodeIndex.Text.Utf8

/-!
# Finding the program to start

A program path with a slash is looked up from the directory in which the program is to work; a bare
name is looked up in the directories of the search path. What is found has to be an executable file
that the system knows how to run: machine code, or a script whose interpreter can be run.

* `interpreter?` : the interpreter that a script names;
* `Runnable` : a file that can be started, and the interpreters that run it;
* `FileSystem.locate` : the file that is started.
-/

namespace CodeIndex

/-- The first bytes of machine code. -/
def machineCodeMark : List UInt8 := 0x7F :: Text.Utf8.encode "ELF"

/-- The program that a script names in its first line. -/
def interpreter? (bytes : List UInt8) : Option String :=
  match bytes with
  | 0x23 :: 0x21 :: rest =>
    let line := (Text.Utf8.decode (rest.takeWhile (· != 10))).toList
    let word := (line.dropWhile (· == ' ')).takeWhile fun c => c != ' ' && c != '\t'
    if word.isEmpty then none else some (String.ofList word)
  | _ => none

/-- A file that can be started. If it is a script, it has an interpreter, which may be a script in
turn; the last of the interpreters is machine code. -/
structure Runnable where
  place : Place
  interpreters : List Place
  deriving Repr, DecidableEq

namespace FileSystem

/-- An executable file, wherever its path leads. -/
def executable (fs : FileSystem) (cwd : Place) (path : Path) :
    Except Errno (Place × List UInt8) :=
  match fs.stat cwd path true with
  | .error e => .error e
  | .ok (p, e) =>
    match e with
    | .file _ _ bytes => if e.isExecutable then .ok (p, bytes) else .error .denied
    | _ => .error .denied

/-- Whether a path leads to an executable file. -/
def isExecutable (fs : FileSystem) (cwd : Place) (path : Path) : Bool :=
  (fs.entry? cwd path).any Entry.isExecutable

/-- An executable file that the system knows how to run. Interpreters are looked up from the same
directory. They may be scripts themselves, to a small depth. -/
def runnable (fs : FileSystem) (cwd : Place) : (depth : Nat) → Path → Except Errno Runnable
  | 0, _ => .error .tooManyLinks
  | depth + 1, path => do
    let (place, bytes) ← fs.executable cwd path
    if machineCodeMark.isPrefixOf bytes then .ok ⟨place, []⟩
    else
      match interpreter? bytes with
      | some program => do
        let interpreter ← runnable fs cwd depth ⟨program⟩
        .ok ⟨place, interpreter.place :: interpreter.interpreters⟩
      | none => .error .notExecutable

end FileSystem

/-- The directories of a search path. -/
def searchDirectories (path : String) : List Path :=
  (Text.splitOn ':' path.toList).map fun cs => ⟨String.ofList cs⟩

/-- Tries candidates one after the other. Missing ones are passed over, and so are those that may
not be run, but then the lack of permission is what is reported. -/
def firstRunnable (fs : FileSystem) (cwd : Place) (refused : Bool) :
    List Path → Except Errno (Runnable × Path)
  | [] => .error (if refused then .denied else .noEntry)
  | path :: rest =>
    match fs.runnable cwd 5 path with
    | .ok found => .ok (found, path)
    | .error e =>
      if e = .denied then firstRunnable fs cwd true rest
      else if e = .noEntry ∨ e = .notDirectory then firstRunnable fs cwd refused rest
      else .error e

/-- The file that is started for a program, and the path by which it was found. Without a search
path there is a usual one. -/
def FileSystem.locate (fs : FileSystem) (search : Option String) (directory : Place)
    (program : Path) : Except Errno (Runnable × Path) :=
  if program.text.isEmpty then .error .noEntry
  else if program.text.toList.contains '/' then
    (fs.runnable directory 5 program).map fun found => (found, program)
  else
    firstRunnable fs directory false
      ((searchDirectories (search.getD "/bin:/usr/bin")).map fun d =>
        if d.text.isEmpty then program else d.join program)

end CodeIndex

import CodeIndex.Child.Locate

/-!
# Running processes

* `Command` : a program with its arguments and the directory it works in;
* `Captured` : how it ended and what it wrote;
* `Host.run` : runs a command to its end, or kills it when its time is up.
-/

namespace CodeIndex

/-- A program to run; without a directory it works where the host does. -/
structure Command where
  program : Path
  arguments : List String
  directory : Option Path
  deriving Repr, DecidableEq

/-- The end of a program and what it wrote, decoded. Nothing is kept of standard output that went
to a file. -/
structure Captured where
  status : ExitStatus
  stdout : String
  stderr : String
  deriving Repr

/-- Whether files can be made in the directory for temporary files. -/
def Host.checkTempDir (host : Host) (fs : FileSystem) : Except Errno Unit :=
  match fs.stat host.cwd host.tempDir true with
  | .ok (_, .dir _) => .ok ()
  | .ok _ => .error .notDirectory
  | .error e => .error e

/-- The directory in which a command works. -/
def Host.directoryOf (host : Host) (fs : FileSystem) (command : Command) : Except Errno Place :=
  match command.directory with
  | none => .ok host.cwd
  | some d =>
    match fs.stat host.cwd d true with
    | .ok (p, .dir _) => .ok p
    | .ok _ => .error .notDirectory
    | .error e => .error e

/-- What is started for a command. -/
def Host.launch (host : Host) (fs : FileSystem) (command : Command) (stdout : Option OpenFile) :
    Except Errno Launch := do
  let directory ← host.directoryOf fs command
  let (found, invoked) ← fs.locate (host.var? "PATH") directory command.program
  .ok ⟨found.place, found.interpreters, invoked, command.arguments, directory, host.environment,
    stdout⟩

/-- The status of a program that has run, if it ended in time. Without a limit it has ended. -/
def awaited (name : String) :
    (limit : Option Nat) → Run (limit.map lastPoll) → Except ChildError ExitStatus
  | none, run => .ok (run.ending.get (Option.isSome_iff_ne_none.mpr (run.ends rfl))).1
  | some limit, run =>
    match (wait limit .steady run.ending).result with
    | .exited status => .ok status
    | .timedOut limit => .error (.timedOut name limit)

/-- Runs a command; `name` stands for it in messages, and the limit is in milliseconds. -/
def Host.run (host : Host) (name : String) (command : Command) (stdout : Option OpenFile)
    (limit : Option Nat) : Effect ChildError Captured := fun fs =>
  match host.checkTempDir fs with
  | .error e => (.error (.notCaptured name e), fs)
  | .ok () =>
    match host.launch fs command stdout with
    | .error e => (.error (.notStarted name e), fs)
    | .ok launch =>
      let r := host.behaviour launch fs (limit.map lastPoll)
      match awaited name limit r with
      | .error e => (.error e, r.files)
      | .ok status =>
        let text := if stdout.isSome then "" else Text.Utf8.decode r.stdout
        (.ok ⟨status, text, Text.Utf8.decode r.stderr⟩, r.files)

end CodeIndex

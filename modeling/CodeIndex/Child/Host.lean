import CodeIndex.Child.Wait
import CodeIndex.FileSystem.Update

/-!
# Hosts

All that a run depends on besides the file system: where it works, its variables, the names drawn
for temporary directories, and what programs do.

* `Launch` : a program about to run;
* `Run` : what it did;
* `Behaviour` : what each program does on each file system;
* `Host` : the surroundings of a run;
* `Effect` : something that happens to a file system and may fail.
-/

namespace CodeIndex

/-- A program about to run. If its file is a script, the first of the interpreters runs it, which
may be a script in turn, and the last of them is machine code. Its standard input is empty; its
standard output goes to a file, or is captured if `stdout` is `none`. -/
structure Launch where
  executable : Place
  interpreters : List Place
  invoked : Path
  arguments : List String
  directory : Place
  environment : List (String × String)
  stdout : Option OpenFile
  deriving Repr, DecidableEq

/-- What a program did within the time allowed to it, in milliseconds: the file system it left, what
it wrote where that is captured, and how and when it ended by itself. A program that is allowed any
time is waited for as long as it runs, and nothing comes after one that does not end, so that there
is such a run only of a program that ends. -/
structure Run (allowance : Option Nat) where
  files : FileSystem
  stdout : List UInt8
  stderr : List UInt8
  ending : ChildEnd
  ends : allowance = none → ending ≠ none

namespace Run

variable {allowance : Option Nat}

/-- What a program did that has ended by itself. -/
def ended (files : FileSystem) (stdout stderr : List UInt8) (status : ExitStatus) (time : Nat) :
    Run allowance :=
  ⟨files, stdout, stderr, some (status, time), fun _ => Option.some_ne_none (status, time)⟩

@[simp] theorem files_ended (files : FileSystem) (stdout stderr : List UInt8) (status : ExitStatus)
    (time : Nat) : (ended files stdout stderr status time : Run allowance).files = files := rfl

end Run

/-- What programs do. The last argument bounds the time, in milliseconds, after which the program
is stopped if it has not ended; where there is no bound, the program ends by itself. -/
abbrev Behaviour := Launch → FileSystem → (allowance : Option Nat) → Run allowance

/-- The surroundings of a run. The names drawn for temporary directories are tried in order. -/
structure Host where
  cwd : Place
  environment : List (String × String)
  tempNames : Nat → String
  behaviour : Behaviour

namespace Host

/-- The value of a variable. -/
def var? (host : Host) (name : String) : Option String := host.environment.lookup name

/-- The directory for temporary files. -/
def tempDir (host : Host) : Path := ⟨(host.var? "TMPDIR").getD "/tmp"⟩

end Host

/-- Something that happens to a file system, with a value or an error at its end. -/
abbrev Effect (ε α : Type) := ExceptT ε (StateM FileSystem) α

namespace Effect

/-- Looks at the file system. -/
def look {ε α : Type} (f : FileSystem → α) : Effect ε α := fun fs => (.ok (f fs), fs)

/-- Looks at the file system for something that may not be there. -/
def examine {ε α : Type} (f : FileSystem → Except ε α) : Effect ε α := fun fs => (f fs, fs)

/-- Does something that either happens or fails without a trace. -/
def change {δ ε : Type} (wrap : δ → ε) (f : FileSystem → Except δ FileSystem) :
    Effect ε Unit := fun fs =>
  match f fs with
  | .ok fs' => (.ok (), fs')
  | .error e => (.error (wrap e), fs)

/-- Does something that may fail half way. -/
def attempt {ε : Type} (wrap : Errno → ε) (f : FileSystem → FileSystem × Option Errno) :
    Effect ε Unit := fun fs =>
  match f fs with
  | (fs', none) => (.ok (), fs')
  | (fs', some e) => (.error (wrap e), fs')

/-- Does something and goes on whether or not it fails. -/
def ignoring {ε ε' : Type} (act : Effect ε' Unit) : Effect ε Unit := fun fs =>
  (.ok (), (act fs).2)

/-- Changes the errors. -/
def mapError {ε ε' α : Type} (f : ε → ε') (act : Effect ε α) : Effect ε' α := fun fs =>
  match act fs with
  | (.ok a, fs') => (.ok a, fs')
  | (.error e, fs') => (.error (f e), fs')

/-- The error or value as a value. -/
def outcome {ε ε' α : Type} (act : Effect ε α) : Effect ε' (Except ε α) := fun fs =>
  match act fs with
  | (r, fs') => (.ok r, fs')

end Effect

end CodeIndex

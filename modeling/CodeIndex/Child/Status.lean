import CodeIndex.IoError

/-!
# Ends of processes

* `ExitStatus` : how a process ended, by itself or by a signal;
* `ChildError` : why running a process gave no exit status.
-/

namespace CodeIndex

/-- How a process ended. -/
inductive ExitStatus
  | exited (code : Nat)
  | signaled (signal : Nat) (dumped : Bool)
  deriving Repr, DecidableEq

namespace ExitStatus

def success (s : ExitStatus) : Bool := s = .exited 0

/-- The names of the signals from 1 on. -/
def signalNames : List String :=
  ["HUP", "INT", "QUIT", "ILL", "TRAP", "ABRT", "BUS", "FPE", "KILL", "USR1", "SEGV", "USR2",
   "PIPE", "ALRM", "TERM", "STKFLT", "CHLD", "CONT", "STOP", "TSTP", "TTIN", "TTOU", "URG",
   "XCPU", "XFSZ", "VTALRM", "PROF", "WINCH", "IO", "PWR", "SYS"]

/-- The name of a signal, if it has one. -/
def signalName? (signal : Nat) : Option String :=
  if signal = 0 then none else signalNames[signal - 1]?

def text : ExitStatus → String
  | .exited code => "exit status: " ++ Text.natText code
  | .signaled signal dumped =>
    "signal: " ++ Text.natText signal ++
      (match signalName? signal with
       | some name => " (SIG" ++ name ++ ")"
       | none => "") ++
      (if dumped then " (core dumped)" else "")

end ExitStatus

/-- Why running a process gave no exit status. The limit is in milliseconds. -/
inductive ChildError
  | notStarted (program : String) (cause : IoError)
  | notAwaited (program : String) (cause : IoError)
  | notCaptured (program : String) (cause : IoError)
  | timedOut (program : String) (limit : Nat)
  deriving Repr, DecidableEq

namespace ChildError

def message : ChildError → String
  | .notStarted program e => "failed to start `" ++ program ++ "`: " ++ e.message
  | .notAwaited program e => "failed while waiting for `" ++ program ++ "`: " ++ e.message
  | .notCaptured program e => "cannot capture output of `" ++ program ++ "`: " ++ e.message
  | .timedOut program limit =>
    "`" ++ program ++ "` did not finish within " ++ Text.natText (limit / 1000) ++
      "s and was killed"

/-- The messages of what caused the error. -/
def causes : ChildError → List String
  | .notStarted _ e => [e.message]
  | .notAwaited _ e => [e.message]
  | .notCaptured _ e => [e.message]
  | .timedOut _ _ => []

end ChildError

end CodeIndex

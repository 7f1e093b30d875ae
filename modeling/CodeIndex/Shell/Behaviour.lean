import CodeIndex.Child.Host
import CodeIndex.Shell.Eval

/-!
# What programs do

* `behaviour` : programs are shell scripts or standard utilities.
-/

namespace CodeIndex.Shell

/-- How deep an evaluation may go. -/
def maxDepth : Nat := 8000

/-- How long it takes until a program has begun, in milliseconds. -/
def startTime : Nat := 1

/-- The state in which a program begins. Its output is captured in the streams zero and one, unless
it goes to a file. -/
def initial (launch : Launch) (fs : FileSystem) (allowance : Option Nat) : State :=
  let output : Channel :=
    match launch.stdout with
    | some sink => .ofSink sink
    | none => .stream 0
  { world := ⟨fs, [[], []], 0, allowance, 1000⟩
    self :=
      { name := launch.invoked.text
        arguments := launch.arguments
        vars := launch.environment
        exported := launch.environment.map Prod.fst
        cwd := launch.directory
        channels := [(0, .nothing), (1, output), (2, .stream 1)]
        status := 0
        pid := 1000
        ignored := [] } }

/-- Begins a program and evaluates it. -/
def launched (launch : Launch) (fs : FileSystem) (allowance : Option Nat) : Flow × State :=
  match (initial launch fs allowance).pass startTime with
  | (.next, s) => start maxDepth launch.executable launch.invoked launch.arguments s
  | stopped => stopped

/-- Runs a program as a shell script or a standard utility. A program without a limit that goes
deeper than an evaluation may go is killed. -/
def behaviour : Behaviour := fun launch fs allowance =>
  match launched launch fs allowance with
  | (.exit status, s) => .ended s.files (s.stream 0) (s.stream 1) status s.world.now
  | (_, s) =>
    match allowance with
    | some _ => ⟨s.files, s.stream 0, s.stream 1, none, nofun⟩
    | none => .ended s.files (s.stream 0) (s.stream 1) (.signaled killSignal false) s.world.now

end CodeIndex.Shell

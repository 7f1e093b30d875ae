import CodeIndex.Child.Status
import CodeIndex.FileSystem.Update
import CodeIndex.Shell.Syntax
import CodeIndex.Text.Utf8

/-!
# The state of running programs

* `World` : what all programs share: files, captured streams and the clock;
* `Process` : what belongs to one program;
* `State.write`, `State.input` : output and input through descriptors.
-/

namespace CodeIndex.Shell

/-- What a descriptor leads to. -/
inductive Channel
  | stream (index : Nat)
  | file (id : Nat)
  | nothing
  | zeros
  | bytes (contents : List UInt8)
  deriving Repr, DecidableEq

/-- The channel of an open file. -/
def Channel.ofSink : OpenFile → Channel
  | .file id => .file id
  | .discard => .nothing

/-- What all programs share. Time is in milliseconds, and the deadline is when it is up. -/
structure World where
  files : FileSystem
  streams : List (List UInt8)
  now : Nat
  deadline : Option Nat
  lastPid : Nat

/-- What belongs to one program. -/
structure Process where
  name : String
  arguments : List String
  vars : List (String × String)
  exported : List String
  cwd : Place
  channels : List (Nat × Channel)
  status : Nat
  pid : Nat
  ignored : List Nat
  line : Nat := 1
  functions : List (String × ShellCommand) := []
  /-- What is run at the end. -/
  lastWords : String := ""
  /-- Whether a command that fails ends the program. -/
  strict : Bool := false
  /-- Whether parameters have to be set, and the first that was not. -/
  needsSet : Bool := false
  unsetName : Option String := none

/-- A running program and the world around it. -/
structure State where
  world : World
  self : Process

/-- How a command ends: the program goes on, ends, leaves or repeats loops around the command, goes
back to where a function was called, or has been stopped because time is up. -/
inductive Flow
  | next
  | exit (status : ExitStatus)
  | leave (loops : Nat)
  | again (loops : Nat)
  | back
  | halted
  deriving Repr, DecidableEq

namespace State

def files (s : State) : FileSystem := s.world.files

def setFiles (s : State) (fs : FileSystem) : State :=
  { s with world := { s.world with files := fs } }

def setStatus (s : State) (status : Nat) : State :=
  { s with self := { s.self with status } }

def channel? (s : State) (fd : Nat) : Option Channel := s.self.channels.lookup fd

def setChannel (s : State) (fd : Nat) (c : Channel) : State :=
  { s with self := { s.self with
      channels := (fd, c) :: s.self.channels.filter (·.1 != fd) } }

def closeChannel (s : State) (fd : Nat) : State :=
  { s with self := { s.self with channels := s.self.channels.filter (·.1 != fd) } }

/-- Writes to a descriptor. What is written to a closed one is lost. -/
def write (s : State) (fd : Nat) (bytes : List UInt8) : State :=
  match s.channel? fd with
  | some (.stream i) =>
    { s with world := { s.world with streams := s.world.streams.modify i (· ++ bytes) } }
  | some (.file id) => s.setFiles (s.files.append id bytes)
  | _ => s

def writeText (s : State) (fd : Nat) (text : String) : State :=
  s.write fd (Text.Utf8.encode text)

/-- All that can be read from a descriptor, up to a number of bytes where there is no end. -/
def input (s : State) (fd : Nat) (most : Nat) : List UInt8 :=
  match s.channel? fd with
  | some (.bytes contents) => contents
  | some .zeros => List.replicate most 0
  | _ => []

/-- Whether a descriptor leads nowhere. -/
def isClosed (s : State) (fd : Nat) : Bool := (s.channel? fd).isNone

def setLine (s : State) (line : Nat) : State := { s with self := { s.self with line } }

/-- A message of a shell about the line of its script. -/
def report (s : State) (message : String) : State :=
  s.writeText 2 (s.self.name ++ ": " ++ Text.natText s.self.line ++ ": " ++ message ++ "\n")

def var? (s : State) (name : String) : Option String := s.self.vars.lookup name

def setVariable (s : State) (name value : String) : State :=
  { s with self := { s.self with
      vars := (name, value) :: s.self.vars.filter (·.1 != name) } }

/-- Lets time pass. -/
def pass (s : State) (time : Nat) : Flow × State :=
  let now := s.world.now + time
  let flow := if s.world.deadline.any (· < now) then Flow.halted else .next
  (flow, { s with world := { s.world with now } })

/-- Adds a stream and says which it is. -/
def addStream (s : State) : Nat × State :=
  (s.world.streams.length,
    { s with world := { s.world with streams := s.world.streams ++ [[]] } })

/-- What has been written to a stream. -/
def stream (s : State) (i : Nat) : List UInt8 := s.world.streams[i]?.getD []

end State

end CodeIndex.Shell

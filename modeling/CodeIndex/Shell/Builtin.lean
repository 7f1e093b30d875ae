import CodeIndex.Child.Locate
import CodeIndex.Shell.Filter

/-!
# Commands that change the shell

* `builtin?` : the command of a name that changes the shell itself or how it goes on;
* `program?` : the standard program of a name.
-/

namespace CodeIndex.Shell

/-- The standard program of a name. -/
def program? (name : String) : Option Utility := (utility? name).orElse fun _ => filter? name

/-- The standard programs, with the shell and what it needs of time. -/
def programNames : List String := ["sh", "sleep", "env"] ++ utilityNames ++ filterNames

/-- A command of the shell itself. -/
abbrev Builtin := List String → State → Flow × State

/-- Goes on with a status. -/
def goOn (status : Nat) (s : State) : Flow × State := (.next, s.setStatus status)

/-- A message of a command of the shell. -/
def object (command message : String) (s : State) : State :=
  s.report (command ++ ": " ++ message)

/-- The number of a signal, written as a number or a name. -/
def signalNumber? (text : String) : Option Nat :=
  match text.toNat? with
  | some n => if n ≤ 64 then some n else none
  | none =>
    let name := if text.startsWith "SIG" then String.ofList (text.toList.drop 3) else text
    if name = "EXIT" then some 0
    else (ExitStatus.signalNames.findIdx? (· = name)).map (· + 1)

/-- Signals that do nothing unless a program asks for them. -/
def harmlessSignals : List Nat := [0, 17, 18, 19, 20, 21, 22, 23, 28]

/-- Sends a signal to a process. Only the shell itself is known. -/
def send (signal : Nat) (target : String) (s : State) : Flow × State :=
  if target.toNat? ≠ some s.self.pid then goOn 1 (object "kill" "No such process\n" s)
  else if harmlessSignals.contains signal || (s.self.ignored.contains signal && signal ≠ 9) then
    goOn 0 s
  else (.exit (.signaled signal false), s)

def kill : Builtin := fun args s =>
  match args with
  | ["-s", name, target] =>
    match signalNumber? name with
    | some n => send n target s
    | none => goOn 2 (object "kill" ("invalid signal number or name: " ++ name) s)
  | [option, target] =>
    if option.startsWith "-" then
      match signalNumber? (String.ofList (option.toList.drop 1)) with
      | some n => send n target s
      | none => goOn 2 (object "kill" ("Illegal option -" ++
          String.ofList ((option.toList.drop 1).take 1)) s)
    else goOn 1 s
  | [target] => send 15 target s
  | _ => goOn 2 s

/-- Changes what is done on signals. Without a signal's number, zero is the end of the shell. -/
def trap : Builtin := fun args s =>
  match args with
  | action :: names =>
    let signals := names.filterMap signalNumber?
    let others := s.self.ignored.filter (!signals.contains ·)
    let ignored := if action.isEmpty then signals ++ others else others
    let lastWords :=
      if signals.contains 0 then (if action = "-" then "" else action) else s.self.lastWords
    goOn 0 { s with self := { s.self with ignored, lastWords } }
  | [] => goOn 0 s

/-- Ends the shell. Statuses are kept to eight bits. -/
def exitShell : Builtin := fun args s =>
  match args with
  | [] => (.exit (.exited (s.self.status % 256)), s)
  | a :: _ =>
    match a.toNat? with
    | some n => (.exit (.exited (n % 256)), s)
    | none => (.exit (.exited 2), object "exit" ("Illegal number: " ++ a) s)

/-- Goes back to where a function was called. -/
def goBack : Builtin := fun args s =>
  (.back, s.setStatus (((args.head?.bind String.toNat?).getD s.self.status) % 256))

def cd : Builtin := fun args s =>
  let target := (args.head?.orElse fun _ => s.var? "HOME").getD ""
  match s.files.stat s.self.cwd ⟨target⟩ true with
  | .ok (p, .dir _) =>
    let s := { s with self := { s.self with cwd := p } }
    goOn 0 (s.setVariable "PWD" (FileSystem.pathOf p).text)
  | _ => goOn 2 (object "cd" ("can't cd to " ++ target) s)

/-- A variable and the value that an argument gives it. -/
def assigned (argument : String) : String × Option String :=
  let cs := argument.toList
  let name := String.ofList (cs.takeWhile (· != '='))
  match cs.dropWhile (· != '=') with
  | [] => (name, none)
  | _ :: value => (name, some (String.ofList value))

/-- Hands variables on to the programs that are run. -/
def State.exportNames (s : State) (names : List String) : State :=
  { s with self := { s.self with exported := names ++ s.self.exported } }

def exportVariables : Builtin := fun args s =>
  goOn 0 (args.foldl (fun s a =>
    let (name, value) := assigned a
    let s := s.exportNames [name]
    match value with
    | some v => s.setVariable name v
    | none => s) s)

/-- Sets variables. -/
def declare : Builtin := fun args s =>
  goOn 0 (args.foldl (fun s a =>
    let (name, value) := assigned a
    s.setVariable name (value.getD "")) s)

def unset : Builtin := fun args s =>
  goOn 0 { s with self := { s.self with
    vars := s.self.vars.filter fun (n, _) => !args.contains n } }

def shift : Builtin := fun args s =>
  let n := (args.head?.bind String.toNat?).getD 1
  if n ≤ s.self.arguments.length then
    goOn 0 { s with self := { s.self with arguments := s.self.arguments.drop n } }
  else (.exit (.exited 2), object "shift" "can't shift that many" s)

/-- Turns a mode of the shell on or off. -/
def setMode (s : State) (on : Bool) (letter : Char) : State :=
  if letter = 'e' then { s with self := { s.self with strict := on } }
  else if letter = 'u' then { s with self := { s.self with needsSet := on } }
  else s

/-- Sets modes and arguments of the shell. -/
def setShell : Builtin := fun args s =>
  match args with
  | [] => goOn 0 s
  | a :: rest =>
    if a = "--" then goOn 0 { s with self := { s.self with arguments := rest } }
    else
      match a.toList with
      | '-' :: letters => setShell rest (letters.foldl (setMode · true) s)
      | '+' :: letters => setShell rest (letters.foldl (setMode · false) s)
      | _ => goOn 0 { s with self := { s.self with arguments := args } }

/-- The words of a line for variables; the last one takes the rest of the line. -/
def readFields : List String → List Char → List (String × String)
  | [], _ => []
  | [n], cs => [(n, String.ofList (Text.stripBoth (fun c => c = ' ' || c = '\t') cs))]
  | n :: ns, cs =>
    let cs := cs.dropWhile fun c => c = ' ' || c = '\t'
    let word := cs.takeWhile fun c => c != ' ' && c != '\t'
    (n, String.ofList word) :: readFields ns (cs.drop word.length)

/-- A text without the backslashes that protect characters. -/
def withoutBackslashes : List Char → List Char
  | '\\' :: c :: cs => c :: withoutBackslashes cs
  | c :: cs => c :: withoutBackslashes cs
  | [] => []

/-- Reads a line of standard input into variables. -/
def read : Builtin := fun args s =>
  let names := args.filter (· != "-r")
  let bytes := s.input 0 0
  let line := bytes.takeWhile (· != 10)
  let text := (Text.Utf8.decode line).toList
  let text := if args.contains "-r" then text else withoutBackslashes text
  let s := s.setChannel 0 (.bytes (bytes.drop (line.length + 1)))
  let s := (readFields names text).foldl (fun s (n, v) => s.setVariable n v) s
  goOn (if line.length < bytes.length then 0 else 1) s

/-- Writes to standard output, which must lead somewhere. -/
def emit (command : String) (bytes : List UInt8) (s : State) : Flow × State :=
  if s.isClosed 1 && !bytes.isEmpty then
    goOn 1 (object command (command ++ ": I/O error") s)
  else goOn 0 (s.write 1 bytes)

/-- Goes on with a status that has been found. -/
def goOnWith (r : Nat × State) : Flow × State := goOn r.1 r.2

/-- A number of loops, one if none is given. -/
def loopCount (args : List String) : Nat := max 1 ((args.head?.bind String.toNat?).getD 1)

/-- The commands of the shell itself, apart from those that run others. -/
def builtin? (name : String) : Option Builtin :=
  match name with
  | ":" | "true" => some fun _ s => goOn 0 s
  | "false" => some fun _ s => goOn 1 s
  | "exit" => some exitShell
  | "return" => some goBack
  | "break" => some fun args s => (.leave (loopCount args), s.setStatus 0)
  | "continue" => some fun args s => (.again (loopCount args), s.setStatus 0)
  | "kill" => some kill
  | "trap" => some trap
  | "cd" => some cd
  | "export" => some exportVariables
  | "readonly" | "local" => some declare
  | "unset" => some unset
  | "shift" => some shift
  | "set" => some setShell
  | "read" => some read
  | "umask" | "wait" => some fun _ s => goOn 0 s
  | "echo" => some fun args s => emit "echo" (echoed args) s
  | "pwd" => some fun _ s => emit "pwd" (Text.Utf8.encode (whereText s)) s
  | "printf" => some fun args s =>
    match args with
    | [] => goOn 2 (object "printf" "usage: printf format [arg ...]" s)
    | format :: args => emit "printf" (printed format args) s
  | "test" => some fun args s => goOnWith (testStatus (object "test") args s)
  | "[" => some fun args s => goOnWith (bracketStatus (object "[") args s)
  | _ => none

/-- What `command -v` says about a name. -/
def whereIs (s : State) (name : String) : Option String :=
  if (builtin? name).isSome || (s.self.functions.lookup name).isSome then some name
  else
    match s.files.locate (s.var? "PATH") s.self.cwd ⟨name⟩ with
    | .ok (_, path) => some path.text
    | .error _ => none

end CodeIndex.Shell

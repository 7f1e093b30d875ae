import CodeIndex.Shell.Builtin
import CodeIndex.Shell.Expansion
import CodeIndex.Shell.Parser

/-!
# Running scripts

* `redirected` : opens the files of a command;
* `eval`, `execute`, `start` : commands, programs by name, and programs that have been found.

The first argument bounds the depth of the evaluation; where it is used up, the program counts as
one that does not end.
-/

namespace CodeIndex.Shell

/-- What the shell says about a file it cannot make. -/
def creationFault (e : Errno) : String :=
  if e = .noEntry then "Directory nonexistent" else e.text

/-- What the shell says about a file it cannot read. -/
def openingFault (e : Errno) : String := if e = .noEntry then "No such file" else e.text

/-- Opens the file of a redirection. -/
def redirectOne (fd : Nat) (kind : RedirectKind) (target : String) (s : State) :
    Except State State :=
  let path : Path := ⟨target⟩
  let cwd := s.self.cwd
  let opened (r : Except Errno (FileSystem × OpenFile)) : Except State State :=
    match r with
    | .ok (fs, sink) => .ok ((s.setFiles fs).setChannel fd (.ofSink sink))
    | .error e => .error (s.report ("cannot create " ++ target ++ ": " ++ creationFault e))
  match kind with
  | .write => opened (s.files.openWrite cwd path fileMode)
  | .append => opened (s.files.openAppend cwd path fileMode)
  | .here => .ok (s.setChannel fd (.bytes (Text.Utf8.encode target)))
  | .read =>
    match s.files.stat cwd path true with
    | .ok (_, .device .zero) => .ok (s.setChannel fd .zeros)
    | .ok (_, .file _ _ bytes) => .ok (s.setChannel fd (.bytes bytes))
    | .ok _ => .ok (s.setChannel fd .nothing)
    | .error e => .error (s.report ("cannot open " ++ target ++ ": " ++ openingFault e))
  | .duplicate =>
    if target = "-" then .ok (s.closeChannel fd)
    else
      match target.toNat?.bind s.channel? with
      | some c => .ok (s.setChannel fd c)
      | none => .error (s.report (target ++ ": Bad file descriptor"))

/-- Opens the files of all redirections. -/
def redirected (run : Substitute) : List Redirect → State → Except State State
  | [], s => .ok s
  | r :: rs, s =>
    let (target, s) := joined run s r.target
    match redirectOne r.fd r.kind target s with
    | .ok s => redirected run rs s
    | .error s => .error s

/-- Does something with other files, and puts the descriptors back. -/
def withRedirects (run : Substitute) (rs : List Redirect) (act : State → Flow × State)
    (s : State) : Flow × State :=
  if rs.isEmpty then act s
  else
    let before := s.self.channels
    let restore (s : State) : State := { s with self := { s.self with channels := before } }
    match redirected run rs s with
    | .ok s =>
      let (flow, s) := act s
      (flow, restore s)
    | .error s => (.next, restore (s.setStatus 2))

/-- Does something whose failure is looked at, and therefore ends nothing. -/
def tested (act : State → Flow × State) (s : State) : Flow × State :=
  let strict := s.self.strict
  let (flow, s) := act { s with self := { s.self with strict := false } }
  (flow, { s with self := { s.self with strict := strict || s.self.strict } })

/-- In strict mode a failure ends the program. -/
def settled : Flow × State → Flow × State
  | (.next, s) =>
    if s.self.strict && s.self.status ≠ 0 then (.exit (.exited s.self.status), s) else (.next, s)
  | r => r

/-- The status that a shell sees of a program. -/
def statusCode : ExitStatus → Nat
  | .exited code => code
  | .signaled signal _ => 128 + signal

/-- What a shell says of a program that a signal has ended. -/
def signalNote : ExitStatus → String
  | .exited _ => ""
  | .signaled signal dumped =>
    let notes : List (Nat × String) :=
      [(1, "Hangup"), (3, "Quit"), (4, "Illegal instruction"), (5, "Trace/breakpoint trap"),
       (6, "Aborted"), (7, "Bus error"), (8, "Floating point exception"), (9, "Killed"),
       (10, "User defined signal 1"), (11, "Segmentation fault"),
       (12, "User defined signal 2"), (14, "Alarm clock"), (15, "Terminated")]
    match notes.lookup signal with
    | some note => note ++ (if dumped then " (core dumped)" else "") ++ "\n"
    | none => ""

/-- Does something in a copy of the shell, of which only the world stays changed. A signal to the
shell ends the shell too. -/
def apart (act : State → Flow × State) (s : State) : Flow × State :=
  let (flow, s') := act s
  let back : State := ⟨s'.world, s.self⟩
  match flow with
  | .halted => (.halted, back)
  | .exit (.exited code) => (.next, back.setStatus code)
  | .exit killed => (.exit killed, back)
  | _ => (.next, back.setStatus s'.self.status)

/-- Sets variables to expanded words. -/
def assign (run : Substitute) : List (String × Word) → State → State
  | [], s => s
  | (name, w) :: rest, s =>
    let (value, s) := joined run s w
    assign run rest (s.setVariable name value)

/-- What a command writes in a copy of the shell, without line ends at its end. -/
def captured (act : State → Flow × State) (s : State) : List Char × State :=
  let (i, s) := s.addStream
  let (_, s) := apart (fun s => act (s.setChannel 1 (.stream i))) s
  let text := (Text.Utf8.decode (s.stream i)).toList.filter (· != '\x00')
  ((text.reverse.dropWhile (· == '\n')).reverse, s)

/-- Whether time is up. -/
def isLate (s : State) : Bool := s.world.deadline.any (· < s.world.now)

/-- The first branch of which a pattern takes the subject. -/
def chosen (run : Substitute) (subject : List Char) :
    List (List Word × ShellCommand) → State → ShellCommand × State
  | [], s => (.empty, s.setStatus 0)
  | (patterns, body) :: rest, s =>
    let (found, s) := patterns.foldl (fun (found, s) w =>
      if found then (found, s)
      else
        let (ps, s) := pieces run s w
        (isMatch (ps.filter fun p => p matches .char _ _) subject, s)) (false, s)
    if found then (body, s) else chosen run subject rest s

/-- The seconds of a text with a point, in milliseconds. -/
def milliseconds (text : String) : Nat :=
  let digits (cs : List Char) : Nat := ((String.ofList cs).toNat?).getD 0
  let whole := text.toList.takeWhile Char.isDigit
  let part := ((text.toList.dropWhile (· != '.')).drop 1).takeWhile Char.isDigit
  digits whole * 1000 + digits ((part ++ ['0', '0', '0']).take 3)

/-- What follows the program in the first line of a script. -/
def interpreterArgument (bytes : List UInt8) : List String :=
  let line := (Text.Utf8.decode ((bytes.drop 2).takeWhile (· != 10))).toList
  let afterName := (line.dropWhile (· == ' ')).dropWhile (· != ' ')
  let argument := Text.stripBoth (· == ' ') afterName
  if argument.isEmpty then [] else [String.ofList argument]

mutual

/-- Runs a command. -/
def eval : (fuel : Nat) → ShellCommand → State → Flow × State
  | 0, _, s => (.halted, s)
  | fuel + 1, c, s =>
    let run : Substitute := captureSource fuel
    match c with
    | .empty => (.next, s)
    | .define name body =>
      goOn 0 { s with self := { s.self with functions := (name, body) :: s.self.functions } }
    | .sequence a b =>
      match eval fuel a s with
      | (.next, s) => eval fuel b s
      | r => r
    | .both a b =>
      match tested (eval fuel a) s with
      | (.next, s) => if s.self.status = 0 then eval fuel b s else (.next, s)
      | r => r
    | .either a b =>
      match tested (eval fuel a) s with
      | (.next, s) => if s.self.status = 0 then (.next, s) else eval fuel b s
      | r => r
    | .negate a =>
      match tested (eval fuel a) s with
      | (.next, s) => goOn (if s.self.status = 0 then 1 else 0) s
      | r => r
    | .group body rs => withRedirects run rs (eval fuel body) s
    | .subshell body rs => settled (apart (withRedirects run rs (eval fuel body)) s)
    | .pipe a b =>
      let (i, s) := s.addStream
      match apart (fun s => eval fuel a (s.setChannel 1 (.stream i))) s with
      | (.halted, s) => (.halted, s)
      | (.exit killed, s) => (.exit killed, s)
      | (_, s) =>
        settled (apart (fun s => eval fuel b (s.setChannel 0 (.bytes (s.stream i)))) s)
    | .ifThen condition yes no =>
      match tested (eval fuel condition) s with
      | (.next, s) =>
        if s.self.status = 0 then eval fuel yes s else eval fuel no (s.setStatus 0)
      | r => r
    | .loop isUntil condition body =>
      match tested (eval fuel condition) s with
      | (.next, s) =>
        if (s.self.status = 0) == isUntil then goOn 0 s
        else
          match eval fuel body s with
          | (.next, s) | (.again 1, s) => eval fuel (.loop isUntil condition body) s
          | (.leave 1, s) => goOn 0 s
          | (.leave n, s) => (.leave (n - 1), s)
          | (.again n, s) => (.again (n - 1), s)
          | r => r
      | r => r
    | .forEach name words body =>
      match words with
      | none => each fuel name s.self.arguments body s
      | some ws =>
        let (values, s) := allFields run s ws
        each fuel name values body s
    | .select subject branches =>
      let (text, s) := joined run s subject
      let (body, s) := chosen run text.toList branches s
      eval fuel body s
    | .simple line assignments words rs =>
      let (values, s) := allFields run (s.setLine line) words
      if isLate s then (.halted, s)
      else
        let r :=
          match if s.self.unsetName.isSome then [":"] else values with
          | [] =>
            withRedirects run rs (fun s =>
              (.next, assign run assignments (s.setStatus 0))) s
          | ["exec"] =>
            match redirected run rs s with
            | .ok s => goOn 0 s
            | .error s => (.exit (.exited 2), s)
          | name :: args =>
            withRedirects run rs (fun s => invoke fuel name args (assign run assignments s)
              (assignments.map Prod.fst)) s
        match r.2.self.unsetName with
        | some name => (.exit (.exited 2), r.2.report (name ++ ": parameter not set"))
        | none => settled r

/-- Runs what a name means to a shell. The names of variables set for it are given. -/
def invoke : (fuel : Nat) → String → List String → State → (own : List String) → Flow × State
  | 0, _, _, s, _ => (.halted, s)
  | fuel + 1, name, args, s, own =>
    match s.self.functions.lookup name with
    | some body =>
      let outer := s.self.arguments
      let restore (s : State) : State := { s with self := { s.self with arguments := outer } }
      match eval fuel body { s with self := { s.self with arguments := args } } with
      | (.next, s) | (.back, s) => (.next, restore s)
      | (flow, s) => (flow, restore s)
    | none =>
      match name, args with
      | "exec", name :: args => execute fuel "exec: " name args (s.exportNames own)
      | "command", "-v" :: names =>
        let found := names.filterMap (whereIs s)
        goOn (if found.isEmpty then 127 else 0) (s.writeText 1 (asLines found))
      | "command", name :: args => invoke fuel name args s own
      | "eval", args =>
        match parse? (Text.joinWith " " args).toList with
        | some c => eval fuel c s
        | none => goOn 2 (s.report "Syntax error")
      | ".", file :: _ =>
        match s.files.read s.self.cwd ⟨file⟩ with
        | .ok bytes =>
          match parse? (Text.Utf8.decode bytes).toList with
          | some c => eval fuel c s
          | none => goOn 2 (s.report "Syntax error")
        | .error e =>
          (.exit (.exited 2),
            s.report (".: cannot open " ++ file ++ ": " ++ openingFault e))
      | name, args =>
        match builtin? name with
        | some act => act args s
        | none =>
          match execute fuel "" name args (s.exportNames own) with
          | (.exit status, s') =>
            goOn (statusCode status) (State.writeText ⟨s'.world, s.self⟩ 2 (signalNote status))
          | (flow, s') => (flow, ⟨s'.world, s.self⟩)

/-- Runs a command once for each value of a variable. -/
def each : (fuel : Nat) → (name : String) → List String → ShellCommand → State → Flow × State
  | 0, _, _, _, s => (.halted, s)
  | _ + 1, _, [], _, s => (.next, s)
  | fuel + 1, name, v :: vs, body, s =>
    match eval fuel body (s.setVariable name v) with
    | (.next, s) | (.again 1, s) => each fuel name vs body s
    | (.leave 1, s) => goOn 0 s
    | (.leave n, s) => (.leave (n - 1), s)
    | (.again n, s) => (.again (n - 1), s)
    | r => r

/-- What a source writes when it is run in a copy of the shell. -/
def captureSource : (fuel : Nat) → List Char → State → List Char × State
  | 0, _, s => ([], s)
  | fuel + 1, source, s =>
    match parse? source with
    | some c => captured (eval fuel c) s
    | none => ([], (s.setStatus 2).report "Syntax error")

/-- Runs a program by its name, to its end. The label stands before the name in messages. -/
def execute : (fuel : Nat) → (label : String) → String → List String → State → Flow × State
  | 0, _, _, _, s => (.halted, s)
  | fuel + 1, label, name, args, s =>
    match s.files.locate (s.var? "PATH") s.self.cwd ⟨name⟩ with
    | .error e =>
      if e = .denied ∨ e = .notExecutable then
        (.exit (.exited 126), s.report (label ++ name ++ ": " ++ e.text))
      else (.exit (.exited 127), s.report (label ++ name ++ ": not found"))
    | .ok (found, invoked) =>
      let pid := s.world.lastPid + 1
      let vars := s.self.vars.filter fun (n, _) => s.self.exported.contains n
      let child : State :=
        { world := { s.world with lastPid := pid }
          self := { s.self with vars, pid, status := 0 } }
      let (flow, after) := start fuel found.place invoked args child
      (flow, ⟨after.world, s.self⟩)

/-- Runs a program that has been found, to its end. -/
def start : (fuel : Nat) → Place → Path → List String → State → Flow × State
  | 0, _, _, _, s => (.halted, s)
  | fuel + 1, place, invoked, args, s =>
    match s.files.get? place with
    | some (.file _ _ bytes) =>
      if machineCodeMark.isPrefixOf bytes then
        let name := Text.Utf8.decode (bytes.drop machineCodeMark.length)
        match name, args with
        | "sh", "-c" :: source :: rest =>
          shell fuel ((rest.head?).getD invoked.text) rest.tail source.toList s
        | "sh", file :: rest =>
          match s.files.read s.self.cwd ⟨file⟩ with
          | .ok bytes => shell fuel file rest (Text.Utf8.decode bytes).toList s
          | .error e =>
            (.exit (.exited 2),
              s.writeText 2 ("sh: 0: cannot open " ++ file ++ ": " ++ openingFault e ++ "\n"))
        | "sh", [] => (.exit (.exited 0), s)
        | "sleep", args =>
          match s.pass ((args.map milliseconds).sum) with
          | (.halted, s) => (.halted, s)
          | (_, s) => (.exit (.exited 0), s)
        | "env", args =>
          let own := args.takeWhile (·.contains '=')
          let s := own.foldl (fun s a =>
            let (n, v) := assigned a
            (s.exportNames [n]).setVariable n (v.getD "")) s
          match args.drop own.length with
          | name :: rest => execute fuel "env: " name rest s
          | [] =>
            let settings := s.self.vars.reverse.map fun (n, v) => n ++ "=" ++ v
            (.exit (.exited 0), s.writeText 1 (asLines settings))
        | name, args =>
          match program? name with
          | some act =>
            let (status, s) := act args s
            (.exit (.exited status), s)
          | none => (.exit (.exited 127), s)
      else
        match interpreter? bytes with
        | some program =>
          match s.files.runnable s.self.cwd 5 ⟨program⟩ with
          | .ok found =>
            start fuel found.place ⟨program⟩ (interpreterArgument bytes ++ invoked.text :: args) s
          | .error _ => (.exit (.exited 127), s)
        | none => (.exit (.exited 126), s)
    | _ => (.exit (.exited 126), s)

/-- Runs a script as a program of its own. -/
def shell : (fuel : Nat) → (name : String) → (args : List String) → List Char → State →
    Flow × State
  | 0, _, _, _, s => (.halted, s)
  | fuel + 1, name, args, source, s =>
    let s := s.setVariable "PWD" (FileSystem.pathOf s.self.cwd).text
    let s : State :=
      { s with self := { s.self with
          name, arguments := args, exported := s.self.vars.map Prod.fst, line := 1
          functions := [], lastWords := "", strict := false, needsSet := false
          unsetName := none } }
    match parse? source with
    | none => (.exit (.exited 2), s.report "Syntax error")
    | some c =>
      match eval fuel c s with
      | (.halted, s) => (.halted, s)
      | (.exit (.signaled signal dumped), s) => (.exit (.signaled signal dumped), s)
      | (.exit (.exited code), s) => farewell fuel code s
      | (_, s) => farewell fuel (s.self.status % 256) s

/-- Ends a script with a status, after what is to be run at the end. -/
def farewell : (fuel : Nat) → (code : Nat) → State → Flow × State
  | 0, _, s => (.halted, s)
  | fuel + 1, code, s =>
    if s.self.lastWords.isEmpty then (.exit (.exited code), s)
    else
      match parse? s.self.lastWords.toList with
      | none => (.exit (.exited code), s)
      | some c =>
        let s : State := { s with self := { s.self with lastWords := "", status := code } }
        match eval fuel c s with
        | (.exit status, s) => (.exit status, s)
        | (.halted, s) => (.halted, s)
        | (_, s) => (.exit (.exited code), s)

end

end CodeIndex.Shell

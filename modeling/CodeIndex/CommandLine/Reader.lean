import CodeIndex.CommandLine.Misuse

/-!
# Reading command lines

Arguments are read from left to right. A value that may still change its meaning, or that is still
to come, is pending until the next argument is understood. After two hyphens alone, everything is
a value.

* `CommandLine.withValue` : what the value of an option means;
* `Reading.token` : one argument;
* `CommandLine.read` : a whole command line.
-/

namespace CodeIndex.CommandLine

/-- Why reading ends early: the user asks for help or the version, or there is a mistake. -/
inductive Halt
  | help (full : Bool)
  | version
  | misuse (e : Misuse)
  deriving Repr, DecidableEq

/-- A value that is not yet part of the command line. -/
inductive Pending
  | awaited (o : ValueOption)
  | given (o : ValueOption) (value : String)
  | project (value : String)
  deriving Repr, DecidableEq

/-- What has been read: the command line so far, the arguments in it from first to last, what is
pending, and whether everything that follows is a value. -/
structure Reading where
  line : CommandLine := {}
  used : List Argument := []
  pending : Option Pending := none
  trailing : Bool := false
  deriving Repr

/-- The command line with the value of an option. -/
def withValue (line : CommandLine) (o : ValueOption) (value : String) :
    Except Misuse CommandLine :=
  match o with
  | .timeout =>
    match Text.readUnsigned value with
    | .ok secs => .ok { line with timeout := some secs }
    | .error e => .error (.badNumber o value e)
  | o =>
    if value.isEmpty then .error (.missingValue (.option o))
    else
      match o with
      | .analyzer =>
        match Analyzer.ofName? value with
        | some kind => .ok { line with analyzer := some kind }
        | none => .error (.unknownChoice o value)
      | .completions =>
        match CompletionShell.ofName? value with
        | some shell => .ok { line with completions := some shell }
        | none => .error (.unknownChoice o value)
      | .outputDir => .ok { line with outputDir := some ⟨value⟩ }
      | .jsonOutput => .ok { line with jsonOutput := some ⟨value⟩ }
      | .timeout => .ok line

namespace Reading

/-- Ends in a mistake. -/
def refuse {α : Type} (e : Misuse) : Except Halt α := .error (.misuse e)

/-- Takes up the value of an option. -/
def takeValue (r : Reading) (o : ValueOption) (value : String) : Except Halt Reading :=
  if r.used.contains (.option o) then refuse (.repeated (.option o))
  else
    match r.line.withValue o value with
    | .ok line => .ok { r with line := line, used := r.used ++ [.option o] }
    | .error e => refuse e

/-- Takes up what is pending. -/
def settle (r : Reading) : Except Halt Reading :=
  match r.pending with
  | none => .ok r
  | some (.awaited o) => refuse (.missingValue (.option o))
  | some (.given o value) => { r with pending := none }.takeValue o value
  | some (.project value) =>
    if value.isEmpty then refuse (.missingValue .project)
    else
      .ok { r with
        pending := none
        line := { r.line with project := some ⟨value⟩ }
        used := r.used ++ [.project] }

/-- The arguments in use when a mistake is met before what is pending has been taken up. A
repeated option is no longer in use. -/
def usedAtMistake (r : Reading) : List Argument :=
  match r.pending with
  | some (.given o _) =>
    if r.used.contains (.option o) then r.used.filter (· ≠ .option o)
    else r.used ++ [.option o]
  | some (.project _) => r.used ++ [.project]
  | _ => r.used

/-- Takes up a flag. -/
def takeFlag (r : Reading) (f : Flag) : Except Halt Reading := do
  let r ← r.settle
  if r.used.contains (.flag f) then refuse (.repeated (.flag f))
  else .ok { r with line := r.line.withFlag f, used := r.used ++ [.flag f] }

/-- An option whose value stands with it. -/
def attached (r : Reading) (o : ValueOption) (value : String) : Except Halt Reading := do
  (← r.settle).takeValue o value

/-- An option whose value is still to come. -/
def expect (r : Reading) (o : ValueOption) : Except Halt Reading := do
  .ok { ← r.settle with pending := some (.awaited o) }

/-- Ends with what the user asks for. -/
def answer (r : Reading) (h : Halt) : Except Halt Reading := do
  let _ ← r.settle
  .error h

/-- The mistake of a long name that no option has. -/
def unknownLong (r : Reading) (name : String) : Misuse :=
  let used := r.usedAtMistake
  match Text.mostSimilar? name Argument.long Argument.options with
  | some a => .unknownLong name (some a) (if used.contains a then used else used ++ [a])
  | none => .unknownLong name none used

/-- An argument that begins with two hyphens, with what follows its first equals sign. -/
def takeLong (r : Reading) (name : String) (value : Option String) : Except Halt Reading :=
  match Argument.ofLong? name, value with
  | none, _ => refuse (r.unknownLong name)
  | some (.option o), some v => r.attached o v
  | some (.option o), none => r.expect o
  | some a, some v => refuse (.unwantedValue a v r.used)
  | some (.flag f), none => r.takeFlag f
  | some .version, none => r.answer .version
  | some _, none => r.answer (.help true)

/-- The letters after one hyphen. What follows the letter of an option with a value is the value,
but for an equals sign between them. -/
def takeLetters (r : Reading) : List Char → Except Halt Reading
  | [] => .ok r
  | c :: cs =>
    match Argument.ofShort? c with
    | some (.option o) =>
      match cs with
      | [] => r.expect o
      | '=' :: value => r.attached o (String.ofList value)
      | value => r.attached o (String.ofList value)
    | some (.flag f) => do (← r.takeFlag f).takeLetters cs
    | some .version => r.answer .version
    | some .help => r.answer (.help false)
    | _ => refuse (.unknownShort c)

/-- A value that belongs to no option: the project, unless there is one. -/
def takePositional (r : Reading) (value : String) : Except Halt Reading :=
  let isTaken := r.line.project.isSome ||
    match r.pending with
    | some (.project _) => true
    | _ => false
  if isTaken then refuse (.surplus value r.trailing)
  else do
    .ok { ← r.settle with pending := some (.project value) }

/-- The parts of an argument before and after its first equals sign. -/
def splitEquals : List Char → List Char × Option (List Char)
  | [] => ([], none)
  | '=' :: cs => ([], some cs)
  | c :: cs =>
    let (name, value) := splitEquals cs
    (c :: name, value)

/-- A value that the option before it waits for, or else one that belongs to no option. -/
def takeWord (r : Reading) (word : String) : Except Halt Reading :=
  match r.pending with
  | some (.awaited o) => .ok { r with pending := some (.given o word) }
  | _ => r.takePositional word

/-- One argument. -/
def token (r : Reading) (word : String) : Except Halt Reading :=
  if r.trailing then r.takePositional word
  else
    match word.toList with
    | ['-', '-'] => .ok { r with trailing := true }
    | '-' :: '-' :: cs =>
      let (name, value) := splitEquals cs
      r.takeLong (String.ofList name) (value.map String.ofList)
    | '-' :: c :: cs => r.takeLetters (c :: cs)
    | _ => r.takeWord word

/-- The end of the arguments. Only some requests need no project. -/
def finish (r : Reading) : Except Halt CommandLine := do
  let r ← r.settle
  if r.line.project.isNone && !r.line.standsAlone then refuse (.noProject r.used)
  else .ok r.line

end Reading

/-- The meaning of the arguments after the name of the program. -/
def read (arguments : List String) : Except Halt CommandLine :=
  arguments.foldlM Reading.token {} >>= Reading.finish

end CodeIndex.CommandLine

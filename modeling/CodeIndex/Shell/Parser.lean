import CodeIndex.Shell.Token

/-!
# Reading shell scripts

* `parse?` : the command that a script is.
-/

namespace CodeIndex.Shell

abbrev Tokens := List (Token × Nat)

/-- The text of a word that is a single unquoted piece. -/
def bareText? : Token → Option String
  | .word [.text cs false] => some (String.ofList cs)
  | _ => none

/-- The reserved word at the front. -/
def keyword? : Tokens → Option String
  | (t, _) :: _ => bareText? t
  | [] => none

/-- What follows a reserved word. -/
def expectKeyword? (word : String) : Tokens → Option Tokens
  | (t, _) :: rest => if bareText? t = some word then some rest else none
  | [] => none

/-- What follows an operator. -/
def expectOperator? (op : String) : Tokens → Option Tokens
  | (t, _) :: rest => if t = .operator op then some rest else none
  | [] => none

def skipNewlines : Tokens → Tokens
  | (.newline, _) :: rest => skipNewlines rest
  | ts => ts

/-- Words that end a list of commands. -/
def closers : List String := ["then", "else", "elif", "fi", "do", "done", "esac", "\x7d"]

/-- Whether a list of commands ends here. -/
def atEnd (ts : Tokens) : Bool :=
  match ts with
  | [] => true
  | (.operator op, _) :: _ => op = ")" || op = ";;"
  | ts => (keyword? ts).any closers.contains

/-- An assignment, if a word is one. -/
def assignment? : Token → Option (String × Word)
  | .word (.text cs false :: parts) =>
    let name := cs.takeWhile isNameChar
    match cs.dropWhile isNameChar with
    | '=' :: value =>
      if name.isEmpty || (name.head?.any Char.isDigit) then none
      else some (String.ofList name, .text value false :: parts)
    | _ => none
  | _ => none

/-- The redirection that an operator begins, with its usual descriptor. -/
def redirectKind? (op : String) : Option (RedirectKind × Nat) :=
  if op = ">" then some (.write, 1)
  else if op = ">>" then some (.append, 1)
  else if op = "<" then some (.read, 0)
  else if op = ">&" then some (.duplicate, 1)
  else if op = "<&" then some (.duplicate, 0)
  else if op = "<<" then some (.here, 0)
  else none

/-- A redirection at the front. -/
def redirect? (ts : Tokens) : Option (Redirect × Tokens) :=
  match ts with
  | (.descriptor fd, _) :: (.operator op, _) :: (.word w, _) :: rest =>
    (redirectKind? op).map fun (kind, _) => (⟨fd, kind, w⟩, rest)
  | (.operator op, _) :: (.word w, _) :: rest =>
    (redirectKind? op).map fun (kind, fd) => (⟨fd, kind, w⟩, rest)
  | _ => none

/-- All redirections at the front. -/
def redirects : (fuel : Nat) → Tokens → List Redirect × Tokens
  | 0, ts => ([], ts)
  | fuel + 1, ts =>
    match redirect? ts with
    | some (r, rest) =>
      let (rs, rest) := redirects fuel rest
      (r :: rs, rest)
    | none => ([], ts)

/-- The words and redirections of a simple command. -/
def simpleParts : (fuel : Nat) → Tokens → List Word × List Redirect × Tokens
  | 0, ts => ([], [], ts)
  | fuel + 1, ts =>
    match redirect? ts with
    | some (r, rest) =>
      let (ws, rs, rest) := simpleParts fuel rest
      (ws, r :: rs, rest)
    | none =>
      match ts with
      | (.word w, _) :: rest =>
        let (ws, rs, rest) := simpleParts fuel rest
        (w :: ws, rs, rest)
      | ts => ([], [], ts)

/-- The assignments and redirections before the words of a simple command. -/
def assignments : (fuel : Nat) → Tokens → List (String × Word) × List Redirect × Tokens
  | 0, ts => ([], [], ts)
  | fuel + 1, ts =>
    match redirect? ts with
    | some (r, rest) =>
      let (xs, rs, rest) := assignments fuel rest
      (xs, r :: rs, rest)
    | none =>
      match ts with
      | (t, line) :: rest =>
        match assignment? t with
        | some x =>
          let (xs, rs, rest) := assignments fuel rest
          (x :: xs, rs, rest)
        | none => ([], [], (t, line) :: rest)
      | [] => ([], [], [])

/-- A simple command. -/
def simpleCommand? (ts : Tokens) : Option (ShellCommand × Tokens) :=
  let line := (ts.head?.map Prod.snd).getD 1
  let (xs, before, rest) := assignments ts.length ts
  let (ws, after, rest) := simpleParts rest.length rest
  if xs.isEmpty && ws.isEmpty && before.isEmpty && after.isEmpty then none
  else some (.simple line xs ws (before ++ after), rest)

/-- The words up to the end of a line or a semicolon. -/
def wordsOfList : Tokens → List Word × Tokens
  | (.word w, _) :: rest =>
    let (ws, rest) := wordsOfList rest
    (w :: ws, rest)
  | ts => ([], ts)

/-- The patterns of a branch, up to the closing bracket. -/
def patterns? : Tokens → Option (List Word × Tokens)
  | (.word w, _) :: (.operator op, _) :: rest =>
    if op = ")" then some ([w], rest)
    else if op = "|" then (patterns? rest).map fun (ws, rest) => (w :: ws, rest)
    else none
  | _ => none

mutual

/-- Commands up to a word or bracket that ends them. -/
def list? : (fuel : Nat) → Tokens → Option (ShellCommand × Tokens)
  | 0, _ => none
  | fuel + 1, ts =>
    let ts := skipNewlines ts
    if atEnd ts then some (.empty, ts)
    else do
      let (c, rest) ← chain? fuel ts
      match rest with
      | (.operator ";", _) :: rest | (.operator "&", _) :: rest | (.newline, _) :: rest => do
        let (d, rest) ← list? fuel rest
        some (.sequence c d, rest)
      | rest => if atEnd rest then some (c, rest) else none

/-- Pipelines joined by `&&` and `||`. -/
def chain? : (fuel : Nat) → Tokens → Option (ShellCommand × Tokens)
  | 0, _ => none
  | fuel + 1, ts => do
    let (c, rest) ← pipeline? fuel ts
    chainRest? fuel c rest

/-- What is joined to a command by `&&` and `||`, from the left. -/
def chainRest? : (fuel : Nat) → ShellCommand → Tokens → Option (ShellCommand × Tokens)
  | 0, _, _ => none
  | fuel + 1, c, ts =>
    match ts with
    | (.operator "&&", _) :: rest => do
      let (d, rest) ← pipeline? fuel (skipNewlines rest)
      chainRest? fuel (.both c d) rest
    | (.operator "||", _) :: rest => do
      let (d, rest) ← pipeline? fuel (skipNewlines rest)
      chainRest? fuel (.either c d) rest
    | ts => some (c, ts)

/-- Commands joined by `|`. -/
def pipeline? : (fuel : Nat) → Tokens → Option (ShellCommand × Tokens)
  | 0, _ => none
  | fuel + 1, ts =>
    match expectKeyword? "!" ts with
    | some rest => (pipeline? fuel rest).map fun (c, rest) => (.negate c, rest)
    | none => do
      let (c, rest) ← command? fuel ts
      match rest with
      | (.operator "|", _) :: rest => do
        let (d, rest) ← pipeline? fuel (skipNewlines rest)
        some (.pipe c d, rest)
      | rest => some (c, rest)

/-- One command. -/
def command? : (fuel : Nat) → Tokens → Option (ShellCommand × Tokens)
  | 0, _ => none
  | fuel + 1, ts =>
    match ts with
    | (.operator "(", _) :: rest => do
      let (body, rest) ← list? fuel rest
      let rest ← expectOperator? ")" rest
      let (rs, rest) := redirects rest.length rest
      some (.subshell body rs, rest)
    | _ :: rest =>
      match keyword? ts with
      | some "\x7b" => do
        let (body, rest) ← list? fuel rest
        let rest ← expectKeyword? "\x7d" rest
        let (rs, rest) := redirects rest.length rest
        some (.group body rs, rest)
      | some "if" => do
        let (c, rest) ← conditional? fuel rest
        let (rs, rest) := redirects rest.length rest
        some (.group c rs, rest)
      | some "while" => loop? fuel false rest
      | some "until" => loop? fuel true rest
      | some "for" =>
        match rest with
        | (t, _) :: rest => do
          let name ← bareText? t
          let (words, rest) ←
            match expectKeyword? "in" (skipNewlines rest) with
            | some rest =>
              let (ws, rest) := wordsOfList rest
              some (some ws, rest)
            | none => some (none, rest)
          let rest := (expectOperator? ";" rest).getD rest
          let rest ← expectKeyword? "do" (skipNewlines rest)
          let (body, rest) ← list? fuel rest
          let rest ← expectKeyword? "done" rest
          let (rs, rest) := redirects rest.length rest
          some (.group (.forEach name words body) rs, rest)
        | [] => none
      | some "case" =>
        match rest with
        | (.word w, _) :: rest => do
          let rest ← expectKeyword? "in" (skipNewlines rest)
          let (branches, rest) ← branches? fuel (skipNewlines rest)
          let (rs, rest) := redirects rest.length rest
          some (.group (.select w branches) rs, rest)
        | _ => none
      | name =>
        match rest with
        | (.operator "(", _) :: (.operator ")", _) :: rest => do
          let (body, rest) ← command? fuel (skipNewlines rest)
          some (.define (← name) body, rest)
        | _ => simpleCommand? ts
    | [] => none

/-- What follows `if` or `elif`. -/
def conditional? : (fuel : Nat) → Tokens → Option (ShellCommand × Tokens)
  | 0, _ => none
  | fuel + 1, ts => do
    let (condition, rest) ← list? fuel ts
    let rest ← expectKeyword? "then" rest
    let (yes, rest) ← list? fuel rest
    match keyword? rest with
    | some "elif" => do
      let (no, rest) ← conditional? fuel (rest.drop 1)
      some (.ifThen condition yes no, rest)
    | some "else" => do
      let (no, rest) ← list? fuel (rest.drop 1)
      let rest ← expectKeyword? "fi" rest
      some (.ifThen condition yes no, rest)
    | some "fi" => some (.ifThen condition yes .empty, rest.drop 1)
    | _ => none

/-- What follows `while` or `until`. -/
def loop? : (fuel : Nat) → (isUntil : Bool) → Tokens → Option (ShellCommand × Tokens)
  | 0, _, _ => none
  | fuel + 1, isUntil, ts => do
    let (condition, rest) ← list? fuel ts
    let rest ← expectKeyword? "do" rest
    let (body, rest) ← list? fuel rest
    let rest ← expectKeyword? "done" rest
    let (rs, rest) := redirects rest.length rest
    some (.group (.loop isUntil condition body) rs, rest)

/-- The branches of a `case`. -/
def branches? : (fuel : Nat) → Tokens → Option (List (List Word × ShellCommand) × Tokens)
  | 0, _ => none
  | fuel + 1, ts =>
    match expectKeyword? "esac" ts with
    | some rest => some ([], rest)
    | none => do
      let ts := (expectOperator? "(" ts).getD ts
      let (patterns, rest) ← patterns? ts
      let (body, rest) ← list? fuel rest
      match expectOperator? ";;" rest with
      | some rest => do
        let (branches, rest) ← branches? fuel (skipNewlines rest)
        some ((patterns, body) :: branches, rest)
      | none => do
        let rest ← expectKeyword? "esac" (skipNewlines rest)
        some ([(patterns, body)], rest)

end

/-- The command that a script is. -/
def parse? (source : List Char) : Option ShellCommand := do
  let ts ← tokens? source
  match ← list? (20 * ts.length + 20) ts with
  | (c, []) => some c
  | _ => none

end CodeIndex.Shell

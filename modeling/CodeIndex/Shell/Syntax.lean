/-!
# Shell scripts

* `Part`, `Word` : words before expansion;
* `Redirect` : where a command's files go;
* `ShellCommand` : commands.
-/

namespace CodeIndex.Shell

/-- What is done to the value of a parameter, with the word that follows. -/
inductive ParamOp
  | plain
  | length
  | shortestEnd
  | longestEnd
  | shortestStart
  | longestStart
  /-- A word in place of a value that is unset, or also if it is empty. -/
  | orElse (orEmpty : Bool)
  /-- The same, and the value is set to the word. -/
  | orAssign (orEmpty : Bool)
  /-- A word in place of a value that is set. -/
  | alternative (orEmpty : Bool)
  deriving Repr, DecidableEq

/-- A piece of a word. What is quoted is neither split nor taken for a pattern. -/
inductive Part
  | text (cs : List Char) (quoted : Bool)
  | param (name : String) (op : ParamOp) (word : List Char) (quoted : Bool)
  | command (source : List Char) (quoted : Bool)
  | arith (source : List Char) (quoted : Bool)
  deriving Repr, DecidableEq

abbrev Word := List Part

/-- What a redirection does to a descriptor. -/
inductive RedirectKind
  | write
  | append
  | read
  | duplicate
  /-- The text of the redirection itself is read. -/
  | here
  deriving Repr, DecidableEq

/-- A redirection of a descriptor. -/
structure Redirect where
  fd : Nat
  kind : RedirectKind
  target : Word
  deriving Repr, DecidableEq

/-- A command. Simple commands know the line they are on. -/
inductive ShellCommand
  | empty
  | simple (line : Nat) (assignments : List (String × Word)) (words : List Word)
      (redirects : List Redirect)
  | pipe (left right : ShellCommand)
  | negate (body : ShellCommand)
  | both (left right : ShellCommand)
  | either (left right : ShellCommand)
  | sequence (left right : ShellCommand)
  | group (body : ShellCommand) (redirects : List Redirect)
  | subshell (body : ShellCommand) (redirects : List Redirect)
  | ifThen (condition yes no : ShellCommand)
  | loop (isUntil : Bool) (condition body : ShellCommand)
  | forEach (name : String) (words : Option (List Word)) (body : ShellCommand)
  | select (subject : Word) (branches : List (List Word × ShellCommand))
  | define (name : String) (body : ShellCommand)
  deriving Repr, Inhabited

end CodeIndex.Shell

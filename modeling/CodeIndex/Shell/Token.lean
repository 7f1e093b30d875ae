import CodeIndex.Shell.Syntax
import CodeIndex.Text.Blank

/-!
# Tokens of shell scripts

* `Token` : words, operators and line ends;
* `tokens?` : the tokens of a script, unless a quote or bracket is left open.
-/

namespace CodeIndex.Shell

/-- A token of a script. A number right before a redirection names a descriptor. -/
inductive Token
  | word (w : Word)
  | operator (text : String)
  | descriptor (fd : Nat)
  | newline
  deriving Repr, DecidableEq

/-- Characters that end a word. -/
def endsWord (c : Char) : Bool := " \t\n;&|<>()".toList.contains c

def isNameStart (c : Char) : Bool := c.isAlpha || c = '_'

def isNameChar (c : Char) : Bool := c.isAlphanum || c = '_'

/-- Parameters of one character. -/
def isSpecial (c : Char) : Bool := "?#@*$!-".toList.contains c || c.isDigit

/-- The text up to the bracket that closes the open one, and what follows. Quoted brackets do not
count. -/
def untilClosed (opening closing : Char) : (depth : Nat) → (quote : Option Char) → List Char →
    Option (List Char × List Char)
  | _, _, [] => none
  | depth, quote, c :: cs =>
    let keep (r : Option (List Char × List Char)) := r.map fun (text, rest) => (c :: text, rest)
    match quote with
    | some q => keep (untilClosed opening closing depth (if c = q then none else some q) cs)
    | none =>
      if c = '\'' ∨ c = '"' then keep (untilClosed opening closing depth (some c) cs)
      else if c = opening then keep (untilClosed opening closing (depth + 1) none cs)
      else if c = closing then
        match depth with
        | 0 => some ([], cs)
        | depth + 1 => keep (untilClosed opening closing depth none cs)
      else keep (untilClosed opening closing depth none cs)

/-- The operator of an expansion between braces, and the word after it. -/
def paramOp? (cs : List Char) : Option (ParamOp × List Char) :=
  match cs with
  | [] => some (.plain, [])
  | '%' :: '%' :: w => some (.longestEnd, w)
  | '%' :: w => some (.shortestEnd, w)
  | '#' :: '#' :: w => some (.longestStart, w)
  | '#' :: w => some (.shortestStart, w)
  | ':' :: '-' :: w => some (.orElse true, w)
  | '-' :: w => some (.orElse false, w)
  | ':' :: '=' :: w => some (.orAssign true, w)
  | '=' :: w => some (.orAssign false, w)
  | ':' :: '+' :: w => some (.alternative true, w)
  | '+' :: w => some (.alternative false, w)
  | _ => none

/-- The name at the front of an expansion, and what follows. -/
def paramName? (cs : List Char) : Option (String × List Char) :=
  match cs with
  | [] => none
  | c :: rest =>
    if isNameStart c then
      some (String.ofList (cs.takeWhile isNameChar), cs.dropWhile isNameChar)
    else if c.isDigit then
      some (String.ofList (cs.takeWhile Char.isDigit), cs.dropWhile Char.isDigit)
    else if isSpecial c then some (c.toString, rest)
    else none

/-- What stands between the braces of an expansion. -/
def bracedParam? (quoted : Bool) (cs : List Char) : Option Part :=
  match cs with
  | '#' :: c :: rest =>
    (paramName? (c :: rest)).bind fun (name, rest) =>
      if rest.isEmpty then some (.param name .length [] quoted) else none
  | cs => do
    let (name, rest) ← paramName? cs
    let (op, word) ← paramOp? rest
    some (.param name op word quoted)

/-- The expansion behind a dollar sign. A dollar sign that begins none stands for itself. -/
def dollar? (quoted : Bool) (cs : List Char) : Option (Part × List Char) :=
  match cs with
  | '(' :: '(' :: rest => do
    let (source, rest) ← untilClosed '(' ')' 0 none rest
    match rest with
    | ')' :: rest => some (.arith source quoted, rest)
    | _ => none
  | '(' :: rest => do
    let (source, rest) ← untilClosed '(' ')' 0 none rest
    some (.command source quoted, rest)
  | '\x7b' :: rest => do
    let (source, rest) ← untilClosed '\x7b' '\x7d' 0 none rest
    some (← bracedParam? quoted source, rest)
  | c :: rest =>
    if isNameStart c then
      some (.param (String.ofList (cs.takeWhile isNameChar)) .plain [] quoted,
        cs.dropWhile isNameChar)
    else if isSpecial c then some (.param c.toString .plain [] quoted, rest)
    else some (.text ['$'] quoted, cs)
  | [] => some (.text ['$'] quoted, [])

/-- The source between backquotes, and what follows the closing one. Between double quotes, these
need a backslash too. -/
def backquoted? (quoted : Bool) : List Char → Option (List Char × List Char)
  | [] => none
  | '\x60' :: rest => some ([], rest)
  | '\\' :: c :: rest =>
    let isFree := "$`\\".toList.contains c || (quoted && c = '"')
    (backquoted? quoted rest).map fun (source, rest) =>
      ((if isFree then [c] else ['\\', c]) ++ source, rest)
  | c :: rest => (backquoted? quoted rest).map fun (source, rest) => (c :: source, rest)

/-- The parts of a text in which only expansions count, as in a document within a script. -/
def hereWord? : (fuel : Nat) → List Char → Option Word
  | 0, _ => none
  | fuel + 1, cs =>
    match cs with
    | [] => some []
    | '\\' :: c :: rest => do
      let kept := if "$`\\".toList.contains c then [c] else if c = '\n' then [] else ['\\', c]
      some (.text kept true :: (← hereWord? fuel rest))
    | '$' :: rest => do
      let (part, rest) ← dollar? true rest
      some (part :: (← hereWord? fuel rest))
    | '\x60' :: rest => do
      let (source, rest) ← backquoted? false rest
      some (.command source true :: (← hereWord? fuel rest))
    | c :: rest => do
      let plain := fun c => !("`\\$".toList.contains c)
      some (.text (c :: rest.takeWhile plain) true :: (← hereWord? fuel (rest.dropWhile plain)))

/-- The parts of a word between double quotes, and what follows the closing one. -/
def doubleQuoted? : (fuel : Nat) → List Char → Option (Word × List Char)
  | 0, _ => none
  | fuel + 1, cs =>
    match cs with
    | [] => none
    | '"' :: rest => some ([], rest)
    | '\\' :: c :: rest => do
      let kept := if "$`\"\\".toList.contains c then [c] else if c = '\n' then [] else ['\\', c]
      let (parts, rest) ← doubleQuoted? fuel rest
      some (.text kept true :: parts, rest)
    | '$' :: rest => do
      let (part, rest) ← dollar? true rest
      let (parts, rest) ← doubleQuoted? fuel rest
      some (part :: parts, rest)
    | '\x60' :: rest => do
      let (source, rest) ← backquoted? true rest
      let (parts, rest) ← doubleQuoted? fuel rest
      some (.command source true :: parts, rest)
    | cs => do
      let plain := fun c => !("`\"\\$".toList.contains c)
      let (parts, rest) ← doubleQuoted? fuel (cs.dropWhile plain)
      some (.text (cs.takeWhile plain) true :: parts, rest)

/-- The parts of a word, and what follows it. -/
def word? : (fuel : Nat) → List Char → Option (Word × List Char)
  | 0, _ => none
  | fuel + 1, cs =>
    match cs with
    | [] => some ([], [])
    | '\'' :: rest =>
      match rest.dropWhile (· != '\'') with
      | [] => none
      | _ :: after => do
        let (parts, rest') ← word? fuel after
        some (.text (rest.takeWhile (· != '\'')) true :: parts, rest')
    | '"' :: rest => do
      let (parts, rest) ← doubleQuoted? fuel rest
      let (more, rest) ← word? fuel rest
      some ((if parts.isEmpty then [.text [] true] else parts) ++ more, rest)
    | '\\' :: '\n' :: rest => word? fuel rest
    | '\\' :: c :: rest => do
      let (parts, rest) ← word? fuel rest
      some (.text [c] true :: parts, rest)
    | '$' :: rest => do
      let (part, rest) ← dollar? false rest
      let (parts, rest) ← word? fuel rest
      some (part :: parts, rest)
    | '\x60' :: rest => do
      let (source, rest) ← backquoted? false rest
      let (parts, rest) ← word? fuel rest
      some (.command source false :: parts, rest)
    | c :: rest =>
      if endsWord c then some ([], c :: rest)
      else
        let plain := fun c => !(endsWord c) && !("'`\"\\$".toList.contains c)
        let text := if plain c then cs.takeWhile plain else [c]
        let after := if plain c then cs.dropWhile plain else rest
        do
          let (parts, rest) ← word? fuel after
          some (.text text false :: parts, rest)

/-- The operator at the front of a text, and what follows. -/
def operator? : List Char → Option (String × List Char)
  | '&' :: '&' :: cs => some ("&&", cs)
  | '|' :: '|' :: cs => some ("||", cs)
  | ';' :: ';' :: cs => some (";;", cs)
  | '>' :: '>' :: cs => some (">>", cs)
  | '>' :: '&' :: cs => some (">&", cs)
  | '>' :: '|' :: cs => some (">", cs)
  | '<' :: '&' :: cs => some ("<&", cs)
  | '<' :: '<' :: cs => some ("<<", cs)
  | c :: cs => if ";&|<>()".toList.contains c then some (c.toString, cs) else none
  | [] => none

/-- The digits of a word, if it is nothing else. -/
def digitsOf? : Word → Option Nat
  | [.text cs false] =>
    if !cs.isEmpty && cs.all Char.isDigit then (String.ofList cs).toNat? else none
  | _ => none

/-- Lines up to one that is the delimiter, and the lines after it. -/
def linesUntil (delimiter : List Char) : List (List Char) → List (List Char) × List (List Char)
  | [] => ([], [])
  | l :: ls =>
    if l = delimiter then ([], ls)
    else
      let (body, rest) := linesUntil delimiter ls
      (l :: body, rest)

/-- Lines as one text. -/
def unlines (ls : List (List Char)) : List Char := ls.flatMap (· ++ ['\n'])

/-- The characters of a word that has no expansions. -/
def plainText (w : Word) : List Char :=
  w.flatMap fun p =>
    match p with
    | .text cs _ => cs
    | _ => []

/-- Whether any part of a word is quoted. -/
def anyQuoted (w : Word) : Bool :=
  w.any fun p =>
    match p with
    | .text _ quoted => quoted
    | _ => false

/-- The document that begins on the next line, and the script without it. What follows the
operator is given. -/
def document? (cs : List Char) : Option (Word × List Char) := do
  let (indented, cs) :=
    match cs with
    | '-' :: rest => (true, rest)
    | cs => (false, cs)
  let (name, rest) ← word? (cs.length + 1) (cs.dropWhile (· == ' '))
  let line := rest.takeWhile (· != '\n')
  let below := Text.splitOn '\n' (rest.drop (line.length + 1))
  let below := if indented then below.map (·.dropWhile (· == '\t')) else below
  let (body, after) := linesUntil (plainText name) below
  let text := unlines body
  let content ← if anyQuoted name then some [.text text true] else hereWord? (text.length + 1) text
  some (content, line ++ '\n' :: (after.intersperse ['\n']).flatten)

/-- The tokens of a script, each with its line. -/
def tokensFrom? : (fuel : Nat) → (line : Nat) → List Char → Option (List (Token × Nat))
  | 0, _, _ => none
  | fuel + 1, line, cs =>
    match cs with
    | [] => some []
    | '\n' :: rest => (tokensFrom? fuel (line + 1) rest).map ((.newline, line) :: ·)
    | '\\' :: '\n' :: rest => tokensFrom? fuel (line + 1) rest
    | '#' :: rest => tokensFrom? fuel line (rest.dropWhile (· != '\n'))
    | c :: rest =>
      if c = ' ' ∨ c = '\t' then tokensFrom? fuel line rest
      else
        match operator? cs with
        | some ("<<", rest) => do
          let (content, rest) ← document? rest
          (tokensFrom? fuel line rest).map fun ts =>
            (.operator "<<", line) :: (.word content, line) :: ts
        | some (op, rest) => (tokensFrom? fuel line rest).map ((.operator op, line) :: ·)
        | none => do
          let (w, after) ← word? (cs.length + 1) cs
          let token : Token :=
            match digitsOf? w, after with
            | some fd, '<' :: _ => .descriptor fd
            | some fd, '>' :: _ => .descriptor fd
            | _, _ => .word w
          let lines := (cs.take (cs.length - after.length)).count '\n'
          (tokensFrom? fuel (line + lines) after).map ((token, line) :: ·)

/-- The tokens of a script. -/
def tokens? (source : List Char) : Option (List (Token × Nat)) :=
  tokensFrom? (source.length + 1) 1 source

end CodeIndex.Shell

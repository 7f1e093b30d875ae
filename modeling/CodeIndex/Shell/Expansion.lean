import CodeIndex.Shell.Arithmetic
import CodeIndex.Shell.Machine
import CodeIndex.Shell.Token

/-!
# Expansion of words

* `matchesPattern` : patterns with `*`, `?` and `[…]`;
* `pieces` : what a word becomes, before it is split;
* `fields`, `joined` : a word as several texts or as one.
-/

namespace CodeIndex.Shell

/-! ## Patterns -/

/-- A character of an expanded word. A quoted one stands for itself in patterns and does not
split the word. -/
inductive Piece
  | char (c : Char) (quoted : Bool)
  /-- The end of a field. -/
  | cut
  /-- A place where something quoted stands, be it empty. -/
  | mark
  deriving Repr, DecidableEq

/-- Whether a character is in a set, and the pattern after the set. -/
def inSet? (c : Char) : (first : Bool) → List Piece → Option (Bool × List Piece)
  | _, [] => none
  | first, .char a q :: rest =>
    if a = ']' && !q && !first then some (false, rest)
    else
      match rest with
      | .char '-' false :: .char b bq :: rest' =>
        if b = ']' && !bq then
          (inSet? c false (.char '-' false :: .char b bq :: rest')).map fun (found, after) =>
            (found || a == c, after)
        else
          (inSet? c false rest').map fun (found, after) => (found || (a ≤ c && c ≤ b), after)
      | rest => (inSet? c false rest).map fun (found, after) => (found || a == c, after)
  | first, _ :: rest => inSet? c first rest
termination_by _ ps => ps.length

/-- Whether a pattern takes all of a text. -/
def matchesPattern : (fuel : Nat) → List Piece → List Char → Bool
  | 0, _, _ => false
  | _ + 1, [], cs => cs.isEmpty
  | fuel + 1, .char '*' false :: ps, cs =>
    matchesPattern fuel ps cs ||
      match cs with
      | [] => false
      | _ :: rest => matchesPattern fuel (.char '*' false :: ps) rest
  | fuel + 1, .char '?' false :: ps, cs =>
    match cs with
    | [] => false
    | _ :: rest => matchesPattern fuel ps rest
  | fuel + 1, .char '[' false :: ps, cs =>
    match cs with
    | [] => false
    | c :: rest =>
      let (negated, body) :=
        match ps with
        | .char '!' false :: body => (true, body)
        | body => (false, body)
      match inSet? c true body with
      | some (found, after) => found != negated && matchesPattern fuel after rest
      | none => c == '[' && matchesPattern fuel ps rest
  | fuel + 1, .char p _ :: ps, cs =>
    match cs with
    | [] => false
    | c :: rest => p == c && matchesPattern fuel ps rest
  | fuel + 1, _ :: ps, cs => matchesPattern fuel ps cs

/-- Whether a pattern takes all of a text. -/
def isMatch (pattern : List Piece) (cs : List Char) : Bool :=
  matchesPattern (pattern.length + cs.length + 1) pattern cs

/-- The pattern that unquoted characters are. -/
def patternOf (cs : List Char) : List Piece := cs.map fun c => .char c false

/-- A text without the end that a pattern takes; the first of the given lengths counts. -/
def withoutEnd (pattern : List Piece) (cs : List Char) (lengths : List Nat) : List Char :=
  match lengths.find? fun n => isMatch pattern (cs.drop n) with
  | some n => cs.take n
  | none => cs

/-- A text without the start that a pattern takes; the first of the given lengths counts. -/
def withoutStart (pattern : List Piece) (cs : List Char) (lengths : List Nat) : List Char :=
  match lengths.find? fun n => isMatch pattern (cs.take n) with
  | some n => cs.drop n
  | none => cs

/-! ## Parameters -/

/-- The value of a parameter, if it is set. -/
def param? (s : State) (name : String) : Option String :=
  match name with
  | "?" => some (Text.natText s.self.status)
  | "#" => some (Text.natText s.self.arguments.length)
  | "$" => some (Text.natText s.self.pid)
  | "!" => none
  | "-" => some ""
  | "@" | "*" => some (Text.joinWith " " s.self.arguments)
  | "0" => some s.self.name
  | name =>
    match name.toNat? with
    | some n => s.self.arguments[n - 1]?
    | none => s.var? name

/-- The value of a parameter after its operator, and the value to remember if there is one. The
word of the operator is taken as it is, and as a pattern where one is due. -/
def applyOp (value : Option String) (op : ParamOp) (word : List Char) : String × Option String :=
  let v := value.getD ""
  let cs := v.toList
  let pattern := patternOf word
  let upward := List.range (cs.length + 1)
  let plain := String.ofList word
  let absent (orEmpty : Bool) := value.isNone || (orEmpty && v.isEmpty)
  match op with
  | .plain => (v, none)
  | .length => (Text.natText cs.length, none)
  | .shortestEnd => (String.ofList (withoutEnd pattern cs upward.reverse), none)
  | .longestEnd => (String.ofList (withoutEnd pattern cs upward), none)
  | .shortestStart => (String.ofList (withoutStart pattern cs upward), none)
  | .longestStart => (String.ofList (withoutStart pattern cs upward.reverse), none)
  | .orElse orEmpty => (if absent orEmpty then plain else v, none)
  | .orAssign orEmpty => if absent orEmpty then (plain, some plain) else (v, none)
  | .alternative orEmpty => (if absent orEmpty then "" else plain, none)

/-- The value of a variable in arithmetic. -/
def numberOf (s : State) (name : String) : Int :=
  ((param? s name).bind fun v => (Text.trim v).toInt?).getD 0

/-! ## Words -/

/-- The characters of a text as pieces. -/
def piecesOf (quoted : Bool) (cs : List Char) : List Piece :=
  (if quoted then [Piece.mark] else []) ++ cs.map fun c => .char c quoted

/-- Runs a command and gives what it writes. -/
abbrev Substitute := List Char → State → List Char × State

/-- Whether an operator needs its parameter to be set. -/
def ParamOp.needsValue : ParamOp → Bool
  | .orElse _ | .orAssign _ | .alternative _ => false
  | _ => true

/-- Notes that a parameter was not set where it has to be. -/
def noteUnset (s : State) (name : String) (op : ParamOp) : State :=
  if s.self.needsSet && op.needsValue && (param? s name).isNone && s.self.unsetName.isNone then
    { s with self := { s.self with unsetName := some name } }
  else s

/-- What a part of a word becomes. -/
def partPieces (run : Substitute) (s : State) : Part → List Piece × State
  | .text cs quoted => (piecesOf quoted cs, s)
  | .param "@" .plain _ true =>
    let fields := s.self.arguments.map fun a => piecesOf true a.toList
    (fields.intersperse [Piece.cut] |>.flatten, s)
  | .param name op word quoted =>
    let (value, assigned) := applyOp (param? s name) op word
    let s := noteUnset s name op
    let s :=
      match assigned with
      | some v => s.setVariable name v
      | none => s
    (piecesOf quoted value.toList, s)
  | .command source quoted =>
    let (text, s) := run source s
    (piecesOf quoted text, s)
  | .arith source quoted =>
    let n := (arithmetic? (numberOf s) source).getD 0
    (piecesOf quoted (Text.intText n).toList, s)

/-- What a word becomes. -/
def pieces (run : Substitute) (s : State) : Word → List Piece × State
  | [] => ([], s)
  | p :: ps =>
    let (here, s) := partPieces run s p
    let (rest, s) := pieces run s ps
    (here ++ rest, s)

/-- Splits pieces into fields. A field that is being read is given reversed. -/
def splitFields : Option (List Piece) → List Piece → List (List Piece)
  | none, [] => []
  | some ps, [] => [ps.reverse]
  | field, p :: ps =>
    match p with
    | .mark => splitFields (some (field.getD [])) ps
    | .cut => (field.getD []).reverse :: splitFields (some []) ps
    | .char c quoted =>
      if !quoted && (c = ' ' || c = '\t' || c = '\n') then
        match field with
        | some cs => cs.reverse :: splitFields none ps
        | none => splitFields none ps
      else splitFields (some (p :: field.getD [])) ps

/-- The characters of pieces, with spaces between fields. -/
def textOf (ps : List Piece) : String :=
  String.ofList (ps.filterMap fun p =>
    match p with
    | .char c _ => some c
    | .cut => some ' '
    | .mark => none)

/-- Whether a field is a pattern for names. -/
def hasPattern (ps : List Piece) : Bool :=
  ps.any fun p =>
    match p with
    | .char c quoted => !quoted && (c = '*' || c = '?' || c = '[')
    | _ => false

/-- Splits a field at slashes. -/
def splitSlashes : List Piece → List (List Piece)
  | [] => [[]]
  | .char '/' _ :: ps => [] :: splitSlashes ps
  | p :: ps =>
    match splitSlashes ps with
    | here :: more => (p :: here) :: more
    | [] => [[p]]

/-- The names in a directory that a pattern takes, in order. Hidden ones have to be asked for. -/
def namesMatching (s : State) (directory : String) (pattern : List Piece) : List String :=
  let path := if directory.isEmpty then "." else directory
  match s.files.stat s.self.cwd ⟨path⟩ true with
  | .ok (p, .dir _) =>
    let wantsHidden := (textOf pattern).startsWith "."
    ((s.files.names p).filter fun n =>
      (wantsHidden || !n.startsWith ".") && isMatch pattern n.toList).mergeSort fun a b => a ≤ b
  | _ => []

/-- The paths that a list of patterns takes, after a beginning that ends in a slash. -/
def pathsMatching (s : State) : (beginning : String) → List (List Piece) → List String
  | beginning, [] => [beginning]
  | beginning, [p] =>
    if hasPattern p then (namesMatching s beginning p).map (beginning ++ ·)
    else
      let path := beginning ++ textOf p
      if (s.files.stat s.self.cwd ⟨path⟩ false).isOk then [path] else []
  | beginning, p :: q :: ps =>
    if hasPattern p then
      (namesMatching s beginning p).flatMap fun n =>
        pathsMatching s (beginning ++ n ++ "/") (q :: ps)
    else pathsMatching s (beginning ++ textOf p ++ "/") (q :: ps)

/-- A field as texts: the paths it takes as a pattern, or itself. -/
def namesOf (s : State) (ps : List Piece) : List String :=
  if hasPattern ps then
    match pathsMatching s "" (splitSlashes ps) with
    | [] => [textOf ps]
    | found => found
  else [textOf ps]

/-- A word as several texts. -/
def fields (run : Substitute) (s : State) (w : Word) : List String × State :=
  let (ps, s) := pieces run s w
  ((splitFields none ps).flatMap (namesOf s), s)

/-- Words as texts. -/
def allFields (run : Substitute) (s : State) : List Word → List String × State
  | [] => ([], s)
  | w :: ws =>
    let (here, s) := fields run s w
    let (rest, s) := allFields run s ws
    (here ++ rest, s)

/-- A word as one text. -/
def joined (run : Substitute) (s : State) (w : Word) : String × State :=
  let (ps, s) := pieces run s w
  (textOf ps, s)

end CodeIndex.Shell

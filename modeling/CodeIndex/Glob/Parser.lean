import CodeIndex.Glob.Basic

/-!
# Reading glob patterns

A pattern is read one character at a time. Within `[…]` the ranges read so far are kept; within
braces the tokens before the group wait for the group to close.

* `Glob.parse` : a pattern, or the first fault from the left;
* `Globs.parse` : several patterns.
-/

namespace CodeIndex.Glob

/-- A set `[…]` being read. Ranges are kept last first. -/
structure OpenSet where
  negated : Bool
  ranges : List CharRange
  atStart : Bool
  inRange : Bool

/-- A group in braces being read: the tokens before it and its branches, last first. -/
structure OpenGroup where
  before : List GlobToken
  branches : List (List GlobToken)

/-- What the next character belongs to. -/
inductive Mode
  | plain
  | escaped
  | setStart
  | inSet (set : OpenSet)

/-- What has been read: tokens of the current branch, last first, the groups around it, and the
last character. -/
structure Reader where
  tokens : List GlobToken
  groups : List OpenGroup
  previous : Option Char
  mode : Mode

namespace Reader

def initial : Reader := ⟨[], [], none, .plain⟩

/-- Adds tokens, the last one first, after reading `c`. -/
def add (r : Reader) (c : Char) (tokens : List GlobToken) : Reader :=
  { r with tokens := tokens ++ r.tokens, previous := some c, mode := .plain }

def inGroup (r : Reader) : Bool := !r.groups.isEmpty

/-- Puts a recursive token in place of the last token, unless that is one already. -/
def addRecursive (r : Reader) (c : Char) (token : GlobToken) : Reader :=
  match r.tokens with
  | .leadingDirs :: _ | .everythingBelow :: _ => r.add c []
  | _ :: rest => ({ r with tokens := rest }).add c [token]
  | [] => r.add c [token]

/-- Whether two stars here can be recursive: they follow a slash or begin a branch. -/
def atBoundary (r : Reader) : Bool :=
  r.previous = some '/' || (r.inGroup && (r.previous = some ',' || r.previous = some '\x7b'))

/-- What two stars mean, by the character after them, and whether that is read along with
them. -/
def doubleStar (r : Reader) (next : Option Char) : Reader × Bool :=
  let plain := (r.add '*' [.anyBytes, .anyBytes], false)
  if r.tokens.isEmpty then
    match next with
    | none => (r.add '*' [.leadingDirs], false)
    | some '/' => (r.add '/' [.leadingDirs], true)
    | _ => plain
  else if r.atBoundary then
    match next with
    | none => (r.addRecursive '*' .everythingBelow, false)
    | some '/' => (r.addRecursive '/' .innerDirs, true)
    | some c =>
      if r.inGroup && (c = ',' || c = '\x7d') then (r.addRecursive '*' .everythingBelow, false)
      else plain
  else plain

/-- Reads a character inside a set. -/
def addToSet (r : Reader) (set : OpenSet) (c : Char) : Except GlobFault Reader :=
  let next (ranges : List CharRange) (inRange : Bool) : Reader :=
    { r with mode := .inSet ⟨set.negated, ranges, false, inRange⟩, previous := some c }
  if c = ']' && !set.atStart then
    let ranges := if set.inRange then ⟨'-', '-'⟩ :: set.ranges else set.ranges
    .ok (r.add c [.oneOf set.negated ranges.reverse])
  else if c = '-' && !set.atStart && !set.inRange then .ok (next set.ranges true)
  else if set.inRange then
    match set.ranges with
    | last :: rest =>
      if c < last.first then .error (.invalidRange last.first c)
      else .ok (next (⟨last.first, c⟩ :: rest) false)
    | [] => .ok (next [⟨c, c⟩] false)
  else .ok (next (⟨c, c⟩ :: set.ranges) false)

/-- Reads a character outside sets that is no star. -/
def addPlain (r : Reader) (c : Char) : Except GlobFault Reader :=
  match c with
  | '?' => .ok (r.add c [.anyByte])
  | '[' => .ok { r with mode := .setStart, previous := some c }
  | '\x7b' =>
    .ok { r with tokens := [], groups := ⟨r.tokens, []⟩ :: r.groups, previous := some c }
  | '\x7d' =>
    match r.groups with
    | [] => .error .unopenedGroup
    | group :: outer =>
      let branches := (r.tokens :: group.branches).reverse.map List.reverse
      .ok { r with
        tokens := .either branches :: group.before
        groups := outer
        previous := some c }
  | ',' =>
    match r.groups with
    | [] => .ok (r.add c [.literal c])
    | group :: outer =>
      .ok { r with
        tokens := []
        groups := ⟨group.before, r.tokens :: group.branches⟩ :: outer
        previous := some c }
  | '\\' => .ok { r with mode := .escaped, previous := some c }
  | c => .ok (r.add c [.literal c])

/-- The pattern, if nothing is left open. -/
def finish (r : Reader) : Except GlobFault Glob :=
  match r.mode with
  | .escaped => .error .danglingEscape
  | .setStart | .inSet _ => .error .unclosedSet
  | .plain => if r.inGroup then .error .unclosedGroup else .ok ⟨r.tokens.reverse⟩

/-- Reads the characters from the left. -/
def run (r : Reader) : List Char → Except GlobFault Glob
  | [] => r.finish
  | c :: cs =>
    match r.mode with
    | .escaped => (r.add c [.literal c]).run cs
    | .setStart =>
      if c = '!' ∨ c = '^' then
        ({ r with mode := .inSet ⟨true, [], true, false⟩, previous := some c }).run cs
      else
        match r.addToSet ⟨false, [], true, false⟩ c with
        | .ok r' => r'.run cs
        | .error e => .error e
    | .inSet set =>
      match r.addToSet set c with
      | .ok r' => r'.run cs
      | .error e => .error e
    | .plain =>
      if c = '*' then
        match cs with
        | '*' :: rest =>
          match r.doubleStar rest.head?, rest with
          | (r', true), _ :: rest' => r'.run rest'
          | (r', _), rest => r'.run rest
        | rest => (r.add c [.anyBytes]).run rest
      else
        match r.addPlain c with
        | .ok r' => r'.run cs
        | .error e => .error e
termination_by cs => cs.length

end Reader

/-- The pattern that a text writes. -/
def parse (text : String) : Except GlobError Glob :=
  match Reader.initial.run text.toList with
  | .ok g => .ok g
  | .error fault => .error ⟨text, fault⟩

end Glob

/-- Several patterns; the first faulty one is refused. -/
def Globs.parse (texts : List String) : Except GlobError Globs := texts.mapM Glob.parse

end CodeIndex

import CodeIndex.Text.Integer

/-!
# Paths to settings

A key such as `tools.exporter` or `copy_exclude[0]` leads into tables and arrays.

* `KeyPath.ofText` : reads a key; what is no path stands for itself.
-/

namespace CodeIndex

/-- One step into a value. Negative positions count from the end. -/
inductive KeyStep
  | key (name : String)
  | index (position : Int)
  deriving Repr, DecidableEq

/-- The steps from the root to a value. -/
abbrev KeyPath := List KeyStep

namespace KeyPath

/-- The characters of names in a path. -/
def isNameChar (c : Char) : Bool := c.isAlphanum || c = '_' || c = '-'

/-- A name in front of a text. -/
def name? (cs : List Char) : Option (String × List Char) :=
  let name := cs.takeWhile isNameChar
  if name.isEmpty then none else some (String.ofList name, cs.dropWhile isNameChar)

def isSpace (c : Char) : Bool := c = ' ' || c = '\t'

/-- A position between brackets, behind the opening one. -/
def position? (cs : List Char) : Option (Int × List Char) :=
  let cs := cs.dropWhile isSpace
  let (negative, cs) :=
    match cs with
    | '-' :: rest => (true, rest)
    | cs => (false, cs)
  let digits := cs.takeWhile Char.isDigit
  let n := digits.foldl (fun n c => n * 10 + (c.toNat - '0'.toNat)) 0
  if digits.isEmpty || n > Text.maxSigned then none
  else
    match (cs.dropWhile Char.isDigit).dropWhile isSpace with
    | ']' :: rest => some (if negative then -Int.ofNat n else Int.ofNat n, rest)
    | _ => none

/-- The steps after the first; the last argument bounds their number. -/
def steps? : List Char → Nat → Option KeyPath
  | [], _ => some []
  | _, 0 => none
  | '.' :: cs, count + 1 => do
    let (name, rest) ← name? cs
    some (.key name :: (← steps? rest count))
  | '[' :: cs, count + 1 => do
    let (position, rest) ← position? cs
    some (.index position :: (← steps? rest count))
  | _, _ => none

/-- A path with all of the text. -/
def read? (s : String) : Option KeyPath := do
  let (name, rest) ← name? s.toList
  some (.key name :: (← steps? rest rest.length))

/-- The path that a key means. -/
def ofText (s : String) : KeyPath := (read? s).getD [.key s]

end KeyPath

end CodeIndex

/-!
# Reading TOML strings

Four kinds of quotes: `"` with escapes, `'` without, and each tripled for texts of several lines.
Each reader starts behind the opening quotes and returns the text and what follows the closing
ones.
-/

namespace CodeIndex.Toml

/-- Whether a character may stand in a string or comment as it is. -/
def isPlain (c : Char) : Bool := c = '\t' || (0x20 ≤ c.toNat && c.toNat ≠ 0x7F)

/-- The character of a code point written in hexadecimal digits. -/
def codePoint? (digits : List Char) (count : Nat) : Option Char :=
  let ds := digits.take count
  let isHex := fun c : Char => c.isDigit || ('a' ≤ c && c ≤ 'f') || ('A' ≤ c && c ≤ 'F')
  let value := fun c : Char =>
    if c.isDigit then c.toNat - '0'.toNat else c.toLower.toNat - 'a'.toNat + 10
  if ds.length = count && ds.all isHex then
    let n := ds.foldl (fun n c => n * 16 + value c) 0
    if n.isValidChar then some (Char.ofNat n) else none
  else none

/-- What the characters after a backslash stand for, and how many of them are used. -/
def escape? : List Char → Option (Char × Nat)
  | 'b' :: _ => some ('\x08', 1)
  | 't' :: _ => some ('\t', 1)
  | 'n' :: _ => some ('\n', 1)
  | 'f' :: _ => some ('\x0c', 1)
  | 'r' :: _ => some ('\r', 1)
  | 'e' :: _ => some ('\x1b', 1)
  | '"' :: _ => some ('"', 1)
  | '\\' :: _ => some ('\\', 1)
  | 'x' :: ds => (codePoint? ds 2).map fun c => (c, 3)
  | 'u' :: ds => (codePoint? ds 4).map fun c => (c, 5)
  | 'U' :: ds => (codePoint? ds 8).map fun c => (c, 9)
  | _ => none

/-- Puts a character in front of what was read. -/
def andThen (c : Char) : Option (List Char × List Char) → Option (List Char × List Char)
  | some (cs, rest) => some (c :: cs, rest)
  | none => none

/-- The rest of a string in `"`. -/
def basic? : List Char → Option (List Char × List Char)
  | [] => none
  | '"' :: rest => some ([], rest)
  | '\\' :: rest =>
    match escape? rest with
    | some (c, used) => andThen c (basic? (rest.drop used))
    | none => none
  | c :: rest => if isPlain c then andThen c (basic? rest) else none
termination_by cs => cs.length
decreasing_by all_goals simp; try omega

/-- The rest of a string in `'`. -/
def literal? : List Char → Option (List Char × List Char)
  | [] => none
  | '\'' :: rest => some ([], rest)
  | c :: rest => if isPlain c then andThen c (literal? rest) else none

/-- The end of a string of several lines: up to two quotes right before the closing ones belong
to the text. -/
def closing (quote : Char) : List Char → List Char × List Char
  | [] => ([], [])
  | [c] => if c = quote then ([quote], []) else ([], [c])
  | c :: d :: rest =>
    if c ≠ quote then ([], c :: d :: rest)
    else if d ≠ quote then ([quote], d :: rest)
    else ([quote, quote], rest)

/-- Blanks within a line. -/
def isSpace (c : Char) : Bool := c = ' ' || c = '\t'

/-- Whether the line ends here. -/
def atNewline : List Char → Bool
  | '\n' :: _ => true
  | '\r' :: '\n' :: _ => true
  | _ => false

/-- The number of characters that a backslash at the end of a line takes with it: up to the next
character that is neither blank nor a line end. -/
def continuation? (cs : List Char) : Option Nat :=
  if atNewline (cs.dropWhile isSpace) then
    some (cs.takeWhile fun c => isSpace c || c = '\n' || c = '\r').length
  else none

/-- The rest of a string in `"""`. -/
def basicLines? : List Char → Option (List Char × List Char)
  | [] => none
  | '"' :: '"' :: '"' :: rest => some (closing '"' rest)
  | '\\' :: rest =>
    match continuation? rest with
    | some used => basicLines? (rest.drop used)
    | none =>
      match escape? rest with
      | some (c, used) => andThen c (basicLines? (rest.drop used))
      | none => none
  | '\r' :: '\n' :: rest => andThen '\r' (andThen '\n' (basicLines? rest))
  | c :: rest => if isPlain c || c = '\n' then andThen c (basicLines? rest) else none
termination_by cs => cs.length
decreasing_by all_goals simp; try omega

/-- The rest of a string in `'''`. -/
def literalLines? : List Char → Option (List Char × List Char)
  | [] => none
  | '\'' :: '\'' :: '\'' :: rest => some (closing '\'' rest)
  | '\r' :: '\n' :: rest => andThen '\r' (andThen '\n' (literalLines? rest))
  | c :: rest => if isPlain c || c = '\n' then andThen c (literalLines? rest) else none

/-- A text of several lines does not begin with the line end after the opening quotes. -/
def dropNewline : List Char → List Char
  | '\n' :: rest => rest
  | '\r' :: '\n' :: rest => rest
  | cs => cs

/-- A string on one line, or none if the text begins with no quote. -/
def lineString? : List Char → Option (List Char × List Char)
  | '"' :: rest => basic? rest
  | '\'' :: rest => literal? rest
  | _ => none

/-- A string of any kind. -/
def string? : List Char → Option (List Char × List Char)
  | '"' :: '"' :: '"' :: rest => basicLines? (dropNewline rest)
  | '\'' :: '\'' :: '\'' :: rest => literalLines? (dropNewline rest)
  | cs => lineString? cs

end CodeIndex.Toml

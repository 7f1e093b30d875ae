import CodeIndex.Text.Blank
import CodeIndex.Text.Integer
import CodeIndex.Text.Utf8

/-!
# Formatted output

* `escape` : what a backslash and the characters after it stand for;
* `printed` : the bytes of a format and its arguments.
-/

namespace CodeIndex.Shell

def isOctal (c : Char) : Bool := '0' ≤ c && c ≤ '7'

/-- The byte of octal digits. -/
def octalByte (ds : List Char) : UInt8 :=
  UInt8.ofNat (ds.foldl (fun n c => n * 8 + (c.toNat - '0'.toNat)) 0)

/-- The bytes that the characters after a backslash stand for, and how many of them are used. With
`zeroFirst`, octal digits come after a zero that does not count. -/
def escape (zeroFirst : Bool) (cs : List Char) : List UInt8 × Nat :=
  match cs with
  | 'a' :: _ => ([7], 1)
  | 'b' :: _ => ([8], 1)
  | 'f' :: _ => ([12], 1)
  | 'n' :: _ => ([10], 1)
  | 'r' :: _ => ([13], 1)
  | 't' :: _ => ([9], 1)
  | 'v' :: _ => ([11], 1)
  | '\\' :: _ => ([0x5C], 1)
  | c :: rest =>
    if zeroFirst then
      if c = '0' then
        let ds := (rest.take 3).takeWhile isOctal
        ([octalByte ds], ds.length + 1)
      else ([0x5C], 0)
    else if isOctal c then
      let ds := (cs.take 3).takeWhile isOctal
      ([octalByte ds], ds.length)
    else if c = '"' then ([0x22], 1)
    else ([0x5C], 0)
  | [] => ([0x5C], 0)

/-- A text with its escapes resolved, and whether `\c` has ended the output. -/
def unescaped : (fuel : Nat) → List Char → List UInt8 × Bool
  | 0, _ => ([], false)
  | _ + 1, [] => ([], false)
  | _ + 1, '\\' :: 'c' :: _ => ([], true)
  | fuel + 1, '\\' :: cs =>
    let (bytes, used) := escape true cs
    let (rest, ended) := unescaped fuel (cs.drop used)
    (bytes ++ rest, ended)
  | fuel + 1, c :: cs =>
    let (rest, ended) := unescaped fuel cs
    (String.utf8EncodeChar c ++ rest, ended)

/-- Fills a field up to its width. -/
def inField (left : Bool) (fill : UInt8) (width : Nat) (bytes : List UInt8) : List UInt8 :=
  let gap := List.replicate (width - bytes.length)
  if left then bytes ++ gap 0x20 else gap fill ++ bytes

/-- The value of digits in a base. -/
def digitsIn (base : Nat) (cs : List Char) : Nat :=
  cs.foldl (fun n c =>
    let d := if c.isDigit then c.toNat - 48 else (c.toLower.toNat - 87)
    n * base + d) 0

/-- A number as shells write it, also to base eight or sixteen, or the code of a quoted
character. -/
def shellNumber (text : String) : Int :=
  match (Text.trim text).toList with
  | '"' :: c :: _ => c.toNat
  | '\'' :: c :: _ => c.toNat
  | '-' :: cs => -(magnitude cs : Int)
  | '+' :: cs => magnitude cs
  | cs => magnitude cs
where
  magnitude (cs : List Char) : Nat :=
    match cs with
    | '0' :: 'x' :: ds => digitsIn 16 (ds.takeWhile fun c => (c.toLower.isAlphanum))
    | '0' :: ds => digitsIn 8 (ds.takeWhile isOctal)
    | ds => digitsIn 10 (ds.takeWhile Char.isDigit)

/-- What a conversion makes of an argument. -/
def converted (conversion : Char) (argument : String) : List UInt8 :=
  let digits (base : Nat) : String := String.ofList (Nat.toDigits base (shellNumber argument).toNat)
  match conversion with
  | 'd' | 'i' | 'u' => Text.Utf8.encode (Text.intText (shellNumber argument))
  | 'x' => Text.Utf8.encode (digits 16)
  | 'X' => Text.Utf8.encode (digits 16).toUpper
  | 'o' => Text.Utf8.encode (digits 8)
  | 'c' => Text.Utf8.encode (String.ofList (argument.toList.take 1))
  | 'b' => (unescaped (argument.length + 1) argument.toList).1
  | _ => Text.Utf8.encode argument

/-- The bytes of a format, used once, with the arguments that are left. -/
def printedOnce : (fuel : Nat) → List Char → List String → List UInt8 × List String
  | 0, _, args => ([], args)
  | _ + 1, [], args => ([], args)
  | fuel + 1, '%' :: '%' :: cs, args =>
    let (rest, args) := printedOnce fuel cs args
    (0x25 :: rest, args)
  | fuel + 1, '%' :: cs, args =>
    let flags := cs.takeWhile fun c => c = '-' || c = '0' || c = '+' || c = ' '
    let cs := cs.drop flags.length
    let width := cs.takeWhile Char.isDigit
    let cs := cs.drop width.length
    let (most, cs) : Option Nat × List Char :=
      match cs with
      | '.' :: cs =>
        let ds := cs.takeWhile Char.isDigit
        (some (digitsIn 10 ds), cs.drop ds.length)
      | cs => (none, cs)
    match cs with
    | [] => ([0x25], args)
    | conversion :: cs =>
      let whole := converted conversion (args.head?.getD "")
      let bytes := if conversion = 's' || conversion = 'b' then whole.take (most.getD whole.length)
        else whole
      let fill : UInt8 := if flags.contains '0' then 0x30 else 0x20
      let width := ((String.ofList width).toNat?).getD 0
      let (rest, args) := printedOnce fuel cs args.tail
      (inField (flags.contains '-') fill width bytes ++ rest, args)
  | fuel + 1, '\\' :: cs, args =>
    let (bytes, used) := escape false cs
    let (rest, args) := printedOnce fuel (cs.drop used) args
    (bytes ++ rest, args)
  | fuel + 1, c :: cs, args =>
    let (rest, args) := printedOnce fuel cs args
    (String.utf8EncodeChar c ++ rest, args)

/-- The bytes of a format, used as long as there are arguments. -/
def printedFrom (format : List Char) : (fuel : Nat) → List String → List UInt8
  | 0, _ => []
  | fuel + 1, args =>
    let (bytes, left) := printedOnce (format.length + 1) format args
    if left.isEmpty || left.length = args.length then bytes
    else bytes ++ printedFrom format fuel left

/-- The bytes of a format and its arguments. -/
def printed (format : String) (args : List String) : List UInt8 :=
  printedFrom format.toList (args.length + 1) args

end CodeIndex.Shell

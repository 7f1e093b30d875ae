import CodeIndex.Toml.Basic

/-!
# TOML scalars

What is written without quotes: booleans, numbers and moments. Single underscores may stand
between the digits of a number, and a decimal number has no zeros in front.

* `Toml.scalar?` : the value of a run of characters.
-/

namespace CodeIndex.Toml

/-- The digits of a number without the underscores between them. -/
def ungroup? (isDigit : Char → Bool) : List Char → Option (List Char)
  | [] => none
  | [c] => if isDigit c then some [c] else none
  | c :: d :: cs =>
    if !isDigit c then none
    else if d = '_' then (ungroup? isDigit cs).map (c :: ·)
    else (ungroup? isDigit (d :: cs)).map (c :: ·)

/-- The value of a digit in any base up to sixteen. -/
def digitValue (c : Char) : Nat :=
  if c.isDigit then c.toNat - '0'.toNat else c.toLower.toNat - 'a'.toNat + 10

def isHexDigit (c : Char) : Bool :=
  c.isDigit || ('a' ≤ c && c ≤ 'f') || ('A' ≤ c && c ≤ 'F')

/-- The value of digits in a base. -/
def valueIn (base : Nat) (ds : List Char) : Nat :=
  ds.foldl (fun n c => n * base + digitValue c) 0

/-- An integer, if it fits into 64 bits. -/
def inRange? (n : Int) : Option Toml :=
  if -Int.ofNat Text.maxSigned - 1 ≤ n ∧ n ≤ Int.ofNat Text.maxSigned then some (.integer n)
  else none

/-- The sign in front of a text: whether there is a minus, and what follows. -/
def signed : List Char → Bool × List Char
  | '+' :: cs => (false, cs)
  | '-' :: cs => (true, cs)
  | cs => (false, cs)

/-- The digits of a decimal number that has no zeros in front. -/
def decimalDigits? (cs : List Char) : Option (List Char) :=
  match ungroup? Char.isDigit cs with
  | some ('0' :: _ :: _) => none
  | ds => ds

/-- A decimal integer. -/
def decimalInteger? (cs : List Char) : Option Toml := do
  let (negative, cs) := signed cs
  let n := Int.ofNat (valueIn 10 (← decimalDigits? cs))
  inRange? (if negative then -n else n)

/-- The exponent after an `e`. -/
def exponent? (cs : List Char) : Option Int := do
  let (negative, cs) := signed cs
  let n := Int.ofNat (valueIn 10 (← ungroup? Char.isDigit cs))
  some (if negative then -n else n)

/-- A decimal number with a point, an exponent or both. -/
def decimalFloat? (cs : List Char) : Option Toml := do
  let (negative, cs) := signed cs
  let isMark := fun c => c == 'e' || c == 'E'
  let mantissa := cs.takeWhile (!isMark ·)
  let power := cs.dropWhile (!isMark ·)
  let whole ← decimalDigits? (mantissa.takeWhile (· != '.'))
  let part ←
    match mantissa.dropWhile (· != '.') with
    | [] => if power.isEmpty then none else some []
    | _ :: ds => ungroup? Char.isDigit ds
  let e ←
    match power with
    | [] => some 0
    | _ :: ds => exponent? ds
  match Binary64.ofDecimal negative (valueIn 10 (whole ++ part)) (e - Int.ofNat part.length) with
  | .infinite _ => none
  | x => some (.float x)

/-- A number that is not decimal, infinity, or what is not a number. -/
def special? (cs : List Char) : Option Toml :=
  match cs with
  | '0' :: 'x' :: ds => (ungroup? isHexDigit ds).bind fun ds => inRange? (valueIn 16 ds)
  | '0' :: 'o' :: ds =>
    (ungroup? (fun c => '0' ≤ c && c ≤ '7') ds).bind fun ds => inRange? (valueIn 8 ds)
  | '0' :: 'b' :: ds =>
    (ungroup? (fun c => c == '0' || c == '1') ds).bind fun ds => inRange? (valueIn 2 ds)
  | cs =>
    let (negative, cs) := signed cs
    if cs = "inf".toList then some (.float (.infinite negative))
    else if cs = "nan".toList then some (.float .nan)
    else none

/-- The value of a run of characters without quotes. -/
def scalar? (cs : List Char) : Option Toml :=
  if cs = "true".toList then some (.boolean true)
  else if cs = "false".toList then some (.boolean false)
  else
    special? cs <|> decimalInteger? cs <|> decimalFloat? cs <|> (Moment.read? cs).map .moment

end CodeIndex.Toml

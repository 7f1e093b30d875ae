import CodeIndex.Decimal.Round

/-!
# Binary floating point numbers of 64 bits

A number is kept as what it means, not as bits: a sign, a significand below `2 ^ 53` and a power
of two.

* `Binary64.ofRatio` : the number nearest to a fraction, ties to even;
* `Binary64.ofDecimal` : the number nearest to `digits · 10 ^ exponent`;
* `Binary64.toUnsigned` : the nearest unsigned 64-bit integer, saturating;
* `Binary64.digits` : the shortest decimal that reads back as the number;
* `Binary64.text` : that decimal without an exponent.
-/

namespace CodeIndex

/-- A number of the binary64 format. A finite one is `± significand · 2 ^ exponent`. -/
inductive Binary64
  | finite (negative : Bool) (significand : Nat) (exponent : Int)
  | infinite (negative : Bool)
  | nan
  deriving Repr, DecidableEq

namespace Binary64
open Decimal

/-- The exponent of the smallest positive number. -/
def minExponent : Int := -1074

/-- The exponent of the largest finite numbers. -/
def maxExponent : Int := 971

/-- Zero, with a sign. -/
def zero (negative : Bool) : Binary64 := .finite negative 0 minExponent

/-- A significand just rounded, which may have grown to `2 ^ 53`. -/
def ofRounded (negative : Bool) (significand : Nat) (exponent : Int) : Binary64 :=
  let (m, e) :=
    if significand = twoTo 53 then (twoTo 52, exponent + 1) else (significand, exponent)
  if maxExponent < e then .infinite negative else .finite negative m e

/-- The quotient `n / (d · 2 ^ e)` as a fraction of naturals. -/
def scaled (n d : Nat) (e : Int) : Nat × Nat :=
  match e with
  | .ofNat k => (n, d * twoTo k)
  | .negSucc k => (n * twoTo (k + 1), d)

/-- The number nearest to `± n / d`; of two equally near ones the one with even significand. -/
def ofRatio (negative : Bool) (n d : Nat) : Binary64 :=
  if n = 0 then zero negative
  else
    let guess := max (Int.ofNat n.log2 - Int.ofNat d.log2 - 53) minExponent
    let (a, b) := scaled n d guess
    let e := if a / b < twoTo 53 then guess else guess + 1
    let (a, b) := scaled n d e
    ofRounded negative (divNearest a b) e

/-- The number nearest to a natural number. -/
def ofNat (n : Nat) : Binary64 := ofRatio false n 1

/-- The number of decimal digits. -/
def decimalLength (n : Nat) : Nat := (Nat.toDigits 10 n).length

/-- The number nearest to `± digits · 10 ^ exponent`. Decimals beyond the range of the format
are settled by their magnitude alone. -/
def ofDecimal (negative : Bool) (digits : Nat) (exponent : Int) : Binary64 :=
  if digits = 0 then zero negative
  else
    let magnitude := exponent + Int.ofNat (decimalLength digits)
    if 400 < magnitude then .infinite negative
    else if magnitude < -400 then zero negative
    else
      match exponent with
      | .ofNat k => ofRatio negative (digits * tenTo k) 1
      | .negSucc k => ofRatio negative digits (tenTo (k + 1))

/-- The absolute value of a finite number as a fraction. -/
def ratio (significand : Nat) (exponent : Int) : Nat × Nat :=
  match exponent with
  | .ofNat k => (significand * twoTo k, 1)
  | .negSucc k => (significand, twoTo (k + 1))

/-- The nearest unsigned 64-bit integer, halves going away from zero: what is out of range goes
to the nearer end, and what is no number to zero. -/
def toUnsigned : Binary64 → Nat
  | .nan => 0
  | .infinite negative => if negative then 0 else twoTo 64 - 1
  | .finite negative m e =>
    if negative then 0
    else
      let (n, d) := ratio m e
      min (divNearestAway n d) (twoTo 64 - 1)

/-! ## Shortest decimals -/

/-- The numbers that round to `m · 2 ^ e` lie between `low` and `high`, here as numerators over
the common denominator `unit`, the ends included if `closed`. -/
structure Interval where
  value : Nat
  low : Nat
  high : Nat
  unit : Nat
  closed : Bool

/-- The decimals that read back as `m · 2 ^ e`. -/
def interval (m : Nat) (e : Int) : Interval :=
  let (up, unit) : Nat × Nat :=
    match e with
    | .ofNat k => (twoTo k, 4)
    | .negSucc k => (1, 4 * twoTo (k + 1))
  let below := if m = twoTo 52 ∧ minExponent < e then up else 2 * up
  ⟨4 * m * up, 4 * m * up - below, 4 * m * up + 2 * up, unit, m % 2 = 0⟩

/-- Whether `k · 10 ^ p` reads back as the number. -/
def Interval.holds (i : Interval) (k : Nat) (p : Int) : Bool :=
  let (a, scale) : Nat × Nat :=
    match p with
    | .ofNat j => (k * tenTo j * i.unit, 1)
    | .negSucc j => (k * i.unit, tenTo (j + 1))
  if i.closed then i.low * scale ≤ a && a ≤ i.high * scale
  else i.low * scale < a && a < i.high * scale

/-- The multiple of `10 ^ p` next to the number that reads back as it, the nearer of two. -/
def Interval.onGrid? (i : Interval) (p : Int) : Option Nat :=
  let (n, d) : Nat × Nat :=
    match p with
    | .ofNat j => (i.value, i.unit * tenTo j)
    | .negSucc j => (i.value * tenTo (j + 1), i.unit)
  let below := n / d
  let near := divNearest n d
  let far := if near = below then below + 1 else below
  if i.holds near p then some near
  else if i.holds far p then some far
  else none

/-- Tries `fuel` grids from the power `p` down, the coarsest first. -/
def Interval.search (i : Interval) (p : Int) : Nat → Option (Nat × Int)
  | 0 => none
  | fuel + 1 =>
    match i.onGrid? p with
    | some k => some (k, p)
    | none => i.search (p - 1) fuel

/-- An upper bound for the power of ten of the first digit. -/
def leadPower (m : Nat) (e : Int) : Int :=
  let (n, d) := ratio m e
  if d ≤ n then Int.ofNat (decimalLength (n / d)) - 1
  else Int.negSucc (decimalLength (d / n) - 1) + 1

/-- Digits and a power of ten of the shortest decimal that reads back as `m · 2 ^ e`. -/
def digits (m : Nat) (e : Int) : Nat × Int :=
  if m = 0 then (0, 0)
  else ((interval m e).search (leadPower m e) 19).getD (0, 0)

/-- A decimal written out without an exponent. -/
def positional (digits : Nat) (power : Int) : String :=
  match power with
  | .ofNat k => String.ofList (Nat.toDigits 10 (digits * tenTo k))
  | .negSucc k =>
    let places := k + 1
    let whole := digits / tenTo places
    let part := Nat.toDigits 10 (digits % tenTo places)
    let part := List.replicate (places - part.length) '0' ++ part
    let part := (part.reverse.dropWhile (· == '0')).reverse
    if part.isEmpty then String.ofList (Nat.toDigits 10 whole)
    else String.ofList (Nat.toDigits 10 whole ++ '.' :: part)

/-- The shortest decimal text that reads back, without an exponent. -/
def text : Binary64 → String
  | .nan => "NaN"
  | .infinite negative => if negative then "-inf" else "inf"
  | .finite negative m e =>
    let (k, p) := digits m e
    (if negative then "-" else "") ++ positional k p

/-! ## Reading -/

/-- The digits at the front of a text, and the rest. -/
def spanDigits (cs : List Char) : List Char × List Char :=
  (cs.takeWhile Char.isDigit, cs.dropWhile Char.isDigit)

/-- The value of decimal digits. -/
def digitsValue (cs : List Char) : Nat :=
  cs.foldl (fun acc c => acc * 10 + (c.toNat - '0'.toNat)) 0

/-- An exponent part `e±n`; `none` if it is malformed. -/
def readExponent : List Char → Option Int
  | [] => some 0
  | c :: cs =>
    if c = 'e' ∨ c = 'E' then
      let (negative, ds) :=
        match cs with
        | '-' :: ds => (true, ds)
        | '+' :: ds => (false, ds)
        | ds => (false, ds)
      if ds.isEmpty || !ds.all Char.isDigit then none
      else
        let n := Int.ofNat (digitsValue ds)
        some (if negative then -n else n)
    else none

/-- A decimal number without its sign. -/
def readMagnitude (negative : Bool) (cs : List Char) : Option Binary64 :=
  let (whole, rest) := spanDigits cs
  let (part, rest) :=
    match rest with
    | '.' :: more => spanDigits more
    | _ => ([], rest)
  if whole.isEmpty && part.isEmpty then none
  else
    (readExponent rest).map fun e =>
      ofDecimal negative (digitsValue (whole ++ part)) (e - Int.ofNat part.length)

/-- A number without its sign: a decimal, or one of the words `inf`, `infinity` and `nan` in any
case. -/
def readUnsignedText (negative : Bool) (cs : List Char) : Option Binary64 :=
  let word := String.ofList (cs.map Char.toLower)
  if word = "inf" ∨ word = "infinity" then some (.infinite negative)
  else if word = "nan" then some .nan
  else readMagnitude negative cs

/-- Reads a number; digits may be missing on one side of the point. -/
def read? (s : String) : Option Binary64 :=
  match s.toList with
  | '-' :: cs => readUnsignedText true cs
  | '+' :: cs => readUnsignedText false cs
  | cs => readUnsignedText false cs

end Binary64

end CodeIndex

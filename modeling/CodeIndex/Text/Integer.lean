/-!
# Reading integers

Decimal integers with an optional sign, refused with the first reason met from the left:
no digits at all, a character that is no digit, or a value past the bound.
-/

namespace CodeIndex.Text

/-- Why a text is no integer of the wanted range. -/
inductive IntegerError
  | empty
  | invalidDigit
  | tooLarge
  | tooSmall
  deriving Repr, DecidableEq

def IntegerError.message : IntegerError → String
  | .empty => "cannot parse integer from empty string"
  | .invalidDigit => "invalid digit found in string"
  | .tooLarge => "number too large to fit in target type"
  | .tooSmall => "number too small to fit in target type"

/-- The value of an ASCII digit. -/
def digitValue? (c : Char) : Option Nat :=
  if '0' ≤ c ∧ c ≤ '9' then some (c.toNat - '0'.toNat) else none

/-- The largest unsigned 64-bit integer. -/
def maxUnsigned : Nat := Nat.pow 2 64 - 1

/-- The largest signed 64-bit integer. -/
def maxSigned : Nat := Nat.pow 2 63 - 1

/-- Reads digits onto the value `acc`, which may grow to `bound`; `beyond` says what is wrong if
it grows further. -/
def readDigits (bound : Nat) (beyond : IntegerError) (acc : Nat) :
    List Char → Except IntegerError Nat
  | [] => .ok acc
  | c :: cs =>
    match digitValue? c with
    | none => .error .invalidDigit
    | some d => if acc * 10 + d ≤ bound then readDigits bound beyond (acc * 10 + d) cs
                else .error beyond

/-- An unsigned 64-bit integer; a plus sign may stand in front. -/
def readUnsigned (s : String) : Except IntegerError Nat :=
  match s.toList with
  | [] => .error .empty
  | ['+'] => .error .invalidDigit
  | '+' :: cs => readDigits maxUnsigned .tooLarge 0 cs
  | cs => readDigits maxUnsigned .tooLarge 0 cs

/-- A signed 64-bit integer; either sign may stand in front. -/
def readSigned (s : String) : Except IntegerError Int :=
  match s.toList with
  | [] => .error .empty
  | ['+'] | ['-'] => .error .invalidDigit
  | '+' :: cs => (readDigits maxSigned .tooLarge 0 cs).map Int.ofNat
  | '-' :: cs => (readDigits (maxSigned + 1) .tooSmall 0 cs).map fun n => -Int.ofNat n
  | cs => (readDigits maxSigned .tooLarge 0 cs).map Int.ofNat

/-- The decimal digits of a natural number. -/
def natText (n : Nat) : String := String.ofList (Nat.toDigits 10 n)

/-- The decimal text of an integer. -/
def intText (n : Int) : String :=
  if n < 0 then "-" ++ natText n.natAbs else natText n.natAbs

end CodeIndex.Text

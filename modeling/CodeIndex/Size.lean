import CodeIndex.Decimal.Binary64
import CodeIndex.Text.Integer

/-!
# Sizes for people

`Size.text` writes a number of bytes in the largest unit of which it holds at least one, with two
decimals above the byte. The count is first taken as a binary64 number, so that counts of
`2 ^ 53` and more keep only their leading bits; dividing by a power of two loses nothing.
-/

namespace CodeIndex.Size
open Decimal

def kilobyte : Nat := 1024

def megabyte : Nat := 1024 * 1024

/-- The count as binary64 keeps it. -/
def kept (bytes : Nat) : Nat :=
  match Binary64.ofNat bytes with
  | .finite _ m e =>
    let (n, d) := Binary64.ratio m e
    n / d
  | _ => 0

/-- Hundredths of `unit` in a count, an exact half going to the even one. -/
def hundredths (count unit : Nat) : Nat := divNearest (100 * count) unit

/-- A number of hundredths with a decimal point. -/
def fixedText (h : Nat) : String :=
  Text.natText (h / 100) ++ "." ++ Text.natText (h / 10 % 10) ++ Text.natText (h % 10)

/-- A number of bytes in a readable unit. -/
def text (bytes : Nat) : String :=
  let count := kept bytes
  if megabyte ≤ count then fixedText (hundredths count megabyte) ++ " MB"
  else if kilobyte ≤ count then fixedText (hundredths count kilobyte) ++ " KB"
  else Text.natText bytes ++ " bytes"

end CodeIndex.Size

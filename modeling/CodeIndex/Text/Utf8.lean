/-!
# UTF-8

* `encode` : the bytes of a text;
* `decode` : the text of any bytes. Each maximal piece of a broken sequence becomes one
  replacement character, so decoding never fails.
-/

namespace CodeIndex.Text.Utf8

/-- The bytes of a text. -/
def encode (s : String) : List UInt8 :=
  s.toList.flatMap String.utf8EncodeChar

/-- Stands for a piece of input that is no character. -/
def replacement : Char := Char.ofNat 0xFFFD

/-- A sequence that has begun: the bits read, how many bytes are missing, and the range the
next one must lie in. -/
structure Pending where
  code : Nat
  missing : Nat
  low : UInt8
  high : UInt8

/-- What the first byte of a sequence announces; `none` for a byte that begins nothing. -/
def Pending.ofLead? (b : UInt8) : Option Pending :=
  let n := b.toNat
  if 0xC2 ≤ n ∧ n ≤ 0xDF then some ⟨n - 0xC0, 1, 0x80, 0xBF⟩
  else if n = 0xE0 then some ⟨0, 2, 0xA0, 0xBF⟩
  else if n = 0xED then some ⟨0xD, 2, 0x80, 0x9F⟩
  else if 0xE1 ≤ n ∧ n ≤ 0xEF then some ⟨n - 0xE0, 2, 0x80, 0xBF⟩
  else if n = 0xF0 then some ⟨0, 3, 0x90, 0xBF⟩
  else if 0xF1 ≤ n ∧ n ≤ 0xF3 then some ⟨n - 0xF0, 3, 0x80, 0xBF⟩
  else if n = 0xF4 then some ⟨4, 3, 0x80, 0x8F⟩
  else none

/-- One byte outside a sequence: what it yields and what it begins. -/
def start (b : UInt8) : List Char × Option Pending :=
  if b < 0x80 then ([Char.ofNat b.toNat], none)
  else
    match Pending.ofLead? b with
    | some p => ([], some p)
    | none => ([replacement], none)

/-- One byte, with the sequence it may continue. -/
def step : Option Pending → UInt8 → List Char × Option Pending
  | none, b => start b
  | some p, b =>
    if p.low ≤ b && b ≤ p.high then
      let code := p.code * 64 + (b.toNat - 0x80)
      if p.missing ≤ 1 then ([Char.ofNat code], none)
      else ([], some ⟨code, p.missing - 1, 0x80, 0xBF⟩)
    else
      let (out, next) := start b
      (replacement :: out, next)

/-- The characters of the bytes that follow a sequence begun. -/
def decodeFrom : Option Pending → List UInt8 → List Char
  | none, [] => []
  | some _, [] => [replacement]
  | p, b :: bytes =>
    let (out, next) := step p b
    out ++ decodeFrom next bytes

/-- The text of any bytes. -/
def decode (bytes : List UInt8) : String :=
  String.ofList (decodeFrom none bytes)

end CodeIndex.Text.Utf8

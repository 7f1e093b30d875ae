import CodeIndex.Text.Integer

/-!
# JSON

* `Json` : the values that reports are made of;
* `Json.render` : a value on one line, without blanks between its parts.
-/

namespace CodeIndex

/-- A value of a report. The fields of an object are in the order in which they are written. -/
inductive Json
  | boolean (b : Bool)
  | number (n : Nat)
  | text (s : String)
  | array (items : List Json)
  | object (fields : List (String × Json))
  deriving Repr

namespace Json

/-- A hexadecimal digit. -/
def hexDigit (n : Nat) : Char := if n < 10 then Char.ofNat (48 + n) else Char.ofNat (87 + n)

/-- A character between quotes. Control characters are escaped, the common ones by a letter. -/
def escapedChar (c : Char) : List Char :=
  if c = '"' then ['\\', '"']
  else if c = '\\' then ['\\', '\\']
  else if c = '\n' then ['\\', 'n']
  else if c = '\r' then ['\\', 'r']
  else if c = '\t' then ['\\', 't']
  else if c.toNat = 8 then ['\\', 'b']
  else if c.toNat = 12 then ['\\', 'f']
  else if c.toNat < 32 then ['\\', 'u', '0', '0', hexDigit (c.toNat / 16), hexDigit (c.toNat % 16)]
  else [c]

/-- A text between quotes. -/
def quoted (s : String) : String := "\"" ++ String.ofList (s.toList.flatMap escapedChar) ++ "\""

mutual

/-- A value on one line. -/
def render : Json → String
  | .boolean b => if b then "true" else "false"
  | .number n => Text.natText n
  | .text s => quoted s
  | .array items => "[" ++ renderItems items ++ "]"
  | .object fields => "\x7b" ++ renderFields fields ++ "\x7d"

/-- Values with commas between them. -/
def renderItems : List Json → String
  | [] => ""
  | [v] => v.render
  | v :: vs => v.render ++ "," ++ renderItems vs

/-- Fields with commas between them. -/
def renderFields : List (String × Json) → String
  | [] => ""
  | [(k, v)] => quoted k ++ ":" ++ v.render
  | (k, v) :: fs => quoted k ++ ":" ++ v.render ++ "," ++ renderFields fs

end

end Json

end CodeIndex

import CodeIndex.Toml.Quoted
import CodeIndex.Toml.Scalar

/-!
# Writing TOML

* `Toml.quoted` : a string between the plainest quotes that can hold it;
* `Toml.written` : a value; arrays of several items take a line for each;
* `Toml.document` : a document, plain values first and then the tables under their headers.
-/

namespace CodeIndex.Toml

/-- The length of the longest run of a character. -/
def longestRun (c : Char) (cs : List Char) : Nat :=
  (cs.foldl (fun (here, most) d =>
    if d = c then (here + 1, max most (here + 1)) else (0, most)) (0, 0)).2

/-- Whether a character can only be written as an escape. -/
def needsEscape (c : Char) : Bool := !isPlain c && c ≠ '\n'

/-- The ways to write a string. -/
inductive QuoteStyle
  | basic
  | literal
  | basicLines
  | literalLines
  deriving Repr, DecidableEq

/-- The style for a text: of the four the first that needs no escapes, and else the one with
escapes that suits its lines. -/
def QuoteStyle.choose (cs : List Char) : QuoteStyle :=
  let doubles := longestRun '"' cs
  let singles := longestRun '\'' cs
  let controls := cs.any needsEscape
  let slashes := cs.contains '\\'
  let lines := cs.contains '\n'
  if !controls && !slashes && doubles = 0 && !lines then .basic
  else if !controls && singles = 0 && !lines then .literal
  else if !controls && !slashes && doubles ≤ 2 then .basicLines
  else if !controls && singles ≤ 2 then .literalLines
  else if lines then .basicLines
  else .basic

/-- The digits of a code point in four places. -/
def fourHex (c : Char) : List Char :=
  let ds := (Nat.toDigits 16 c.toNat).map Char.toUpper
  List.replicate (4 - ds.length) '0' ++ ds

/-- The text with escapes. Line ends stay if `lines` is set, and so do up to `most` quotes in a
row; `quotes` counts those just written. -/
def escaped (lines : Bool) (most : Nat) : (quotes : Nat) → List Char → List Char
  | _, [] => []
  | quotes, c :: cs =>
    match c with
    | '"' =>
      if quotes < most then '"' :: escaped lines most (quotes + 1) cs
      else '\\' :: '"' :: escaped lines most 0 cs
    | '\\' => '\\' :: '\\' :: escaped lines most 0 cs
    | '\t' => '\\' :: 't' :: escaped lines most 0 cs
    | '\n' =>
      if lines then '\n' :: escaped lines most 0 cs else '\\' :: 'n' :: escaped lines most 0 cs
    | '\r' => '\\' :: 'r' :: escaped lines most 0 cs
    | '\x08' => '\\' :: 'b' :: escaped lines most 0 cs
    | '\x0c' => '\\' :: 'f' :: escaped lines most 0 cs
    | c =>
      if isPlain c then c :: escaped lines most 0 cs
      else '\\' :: 'u' :: fourHex c ++ escaped lines most 0 cs

/-- The text between quotes, in characters. -/
def quotedChars (cs : List Char) : List Char :=
  let start := if cs.contains '\n' then ['\n'] else []
  match QuoteStyle.choose cs with
  | .basic => '"' :: escaped false 0 0 cs ++ ['"']
  | .literal => '\'' :: cs ++ ['\'']
  | .basicLines => "\"\"\"".toList ++ start ++ escaped true 2 0 cs ++ "\"\"\"".toList
  | .literalLines => "'''".toList ++ start ++ cs ++ "'''".toList

/-- The text between quotes. -/
def quoted (s : String) : String := String.ofList (quotedChars s.toList)

/-- A float, always with a point or a word. -/
def floatText (x : Binary64) : String :=
  match x with
  | .nan => "nan"
  | .infinite _ => x.text
  | .finite _ _ _ => if x.text.toList.contains '.' then x.text else x.text ++ ".0"

mutual

/-- A value as it stands after an equals sign. -/
def written : Toml → String
  | .text s => quoted s
  | .integer n => Text.intText n
  | .float x => floatText x
  | .boolean b => if b then "true" else "false"
  | .moment m => m.text
  | .array [] => "[]"
  | .array [v] => "[" ++ written v ++ "]"
  | .array (v :: w :: vs) => "[\n" ++ writtenItems (v :: w :: vs) ++ "]"
  | .table entries => "\x7b" ++ writtenMembers true entries ++ "\x7d"

/-- The items of an array, a line each. -/
def writtenItems : List Toml → String
  | [] => ""
  | v :: vs => "    " ++ written v ++ ",\n" ++ writtenItems vs

/-- The values of a table between braces. -/
def writtenMembers (first : Bool) : List (String × Toml) → String
  | [] => if first then "" else " "
  | (k, v) :: rest =>
    (if first then " " else ", ") ++ k ++ " = " ++ written v ++ writtenMembers false rest

end

/-- The lines of a table's plain values. -/
def plainLines : TomlTable → String
  | [] => ""
  | (_, .table _) :: rest => plainLines rest
  | (k, v) :: rest => k ++ " = " ++ written v ++ "\n" ++ plainLines rest

/-- The tables in a table, each under its header. -/
def tableLines : TomlTable → String
  | [] => ""
  | (k, .table entries) :: rest =>
    "\n[" ++ k ++ "]\n" ++ plainLines entries ++ tableLines rest
  | _ :: rest => tableLines rest

/-- A document whose tables hold plain values and whose keys need no quotes. -/
def document (entries : TomlTable) : String := plainLines entries ++ tableLines entries

end CodeIndex.Toml

import CodeIndex.Toml.Draft
import CodeIndex.Toml.Quoted
import CodeIndex.Toml.Scalar

/-!
# Reading TOML documents

Each reader takes a value from the front of a text and returns it with the rest, or nothing if the
text is malformed.

* `Toml.value?` : a value, with arrays and tables nested up to a limit;
* `Toml.read?` : a document.
-/

namespace CodeIndex.Toml

/-- How deep arrays and tables may nest. -/
def maxDepth : Nat := 80

/-! ## White space and comments -/

def skipSpaces (cs : List Char) : List Char := cs.dropWhile isSpace

/-- What follows the comment at the front of a text, if there is one. -/
def skipComment : List Char → List Char
  | '#' :: cs => cs.dropWhile isPlain
  | cs => cs

/-- Skips blanks, comments and line ends. The second argument bounds the number of lines. -/
def skipLines : List Char → Nat → List Char
  | cs, 0 => cs
  | cs, lines + 1 =>
    match skipComment (skipSpaces cs) with
    | '\n' :: rest => skipLines rest lines
    | '\r' :: '\n' :: rest => skipLines rest lines
    | rest => rest

/-- Skips to the next thing that counts, over any number of lines. -/
def skipGap (cs : List Char) : List Char := skipLines cs cs.length

/-- What follows the line end, which a comment may precede. -/
def endOfLine? (cs : List Char) : Option (List Char) :=
  match skipComment (skipSpaces cs) with
  | [] => some []
  | '\n' :: rest => some rest
  | '\r' :: '\n' :: rest => some rest
  | _ => none

/-! ## Keys -/

/-- The characters of keys without quotes. -/
def isKeyChar (c : Char) : Bool := c.isAlphanum || c = '_' || c = '-'

/-- One key. -/
def key? (cs : List Char) : Option (String × List Char) :=
  match lineString? cs with
  | some (name, rest) => some (String.ofList name, rest)
  | none =>
    let name := cs.takeWhile isKeyChar
    if name.isEmpty then none else some (String.ofList name, cs.dropWhile isKeyChar)

/-- Keys with dots between them; the second argument bounds their number. -/
def keys? : List Char → Nat → Option (List String × List Char)
  | _, 0 => none
  | cs, count + 1 => do
    let (key, rest) ← key? (skipSpaces cs)
    match skipSpaces rest with
    | '.' :: rest => do
      let (keys, rest) ← keys? rest count
      some (key :: keys, rest)
    | rest => some ([key], rest)

/-- A dotted key: the keys before the last one, the last one, and the rest. -/
def dottedKey? (cs : List Char) : Option (List String × String × List Char) := do
  let (keys, rest) ← keys? cs (cs.length + 1)
  let last ← keys.getLast?
  some (keys.dropLast, last, rest)

/-! ## Values -/

/-- What ends a run of characters without quotes. -/
def isDelimiter (c : Char) : Bool := " \t\n\r#,[]\x7b\x7d=\"'".toList.contains c

/-- Whether a run of characters could be a date. -/
def isDateLike (cs : List Char) : Bool := (Moment.date? cs).any (·.2.isEmpty)

/-- A value without quotes. A time may follow a date after one space. -/
def bare? (cs : List Char) : Option (Toml × List Char) :=
  let run := cs.takeWhile (!isDelimiter ·)
  let rest := cs.dropWhile (!isDelimiter ·)
  match isDateLike run, rest with
  | true, ' ' :: c :: more =>
    if c.isDigit then
      let time := (c :: more).takeWhile (!isDelimiter ·)
      (scalar? (run ++ ' ' :: time)).map (·, (c :: more).dropWhile (!isDelimiter ·))
    else (scalar? run).map (·, rest)
  | _, _ => (scalar? run).map (·, rest)

/-- A reader of values. -/
abbrev ValueReader := List Char → Option (Toml × List Char)

/-- The rest of an array. The last argument bounds the number of items. -/
def items? (item : ValueReader) : List Char → Nat → Option (List Toml × List Char)
  | _, 0 => none
  | cs, count + 1 =>
    match skipGap cs with
    | ']' :: rest => some ([], rest)
    | cs => do
      let (v, rest) ← item cs
      match skipGap rest with
      | ']' :: rest => some ([v], rest)
      | ',' :: rest => do
        let (vs, rest) ← items? item rest count
        some (v :: vs, rest)
      | _ => none

/-- A key, an equals sign and a value. -/
def pair? (item : ValueReader) (cs : List Char) :
    Option (List String × String × Toml × List Char) := do
  let (path, key, rest) ← dottedKey? cs
  match skipSpaces rest with
  | '=' :: rest => do
    let (v, rest) ← item (skipSpaces rest)
    some (path, key, v, rest)
  | _ => none

/-- The rest of a table between braces, whose values so far are given. The last argument bounds
their number. -/
def members? (item : ValueReader) (entries : Draft.Entries) :
    List Char → Nat → Option (Draft.Entries × List Char)
  | _, 0 => none
  | cs, count + 1 =>
    match skipGap cs with
    | '\x7d' :: rest => some (entries, rest)
    | cs => do
      let (path, key, v, rest) ← pair? item cs
      let entries ← Draft.store path key v entries
      match skipGap rest with
      | '\x7d' :: rest => some (entries, rest)
      | ',' :: rest => members? item entries rest count
      | _ => none

/-- A value; arrays and tables may nest as deep as the first argument says. -/
def value? : Nat → ValueReader
  | depth, '[' :: cs =>
    match depth with
    | 0 => none
    | depth + 1 =>
      (items? (value? depth) cs (cs.length + 1)).map fun (vs, rest) => (.array vs, rest)
  | depth, '\x7b' :: cs =>
    match depth with
    | 0 => none
    | depth + 1 =>
      (members? (value? depth) [] cs (cs.length + 1)).map fun (entries, rest) =>
        (.table (Draft.finishedEntries entries), rest)
  | _, '"' :: cs => (string? ('"' :: cs)).map fun (word, rest) => (.text (String.ofList word), rest)
  | _, '\'' :: cs =>
    (string? ('\'' :: cs)).map fun (word, rest) => (.text (String.ofList word), rest)
  | _, cs => bare? cs

/-! ## Documents -/

/-- A document being read: all its values, and the table that the last header opened. -/
structure Document where
  root : Draft.Entries
  header : List String

/-- What follows a header, after its opening brackets. -/
def header? (isElement : Bool) (doc : Document) (cs : List Char) :
    Option (Document × List Char) := do
  let (path, key, rest) ← dottedKey? cs
  match isElement, rest with
  | true, ']' :: ']' :: rest => do
    let root ← Draft.openElement path key doc.root
    some (⟨root, path ++ [key]⟩, rest)
  | false, ']' :: rest => do
    let root ← Draft.openTable path key doc.root
    some (⟨root, path ++ [key]⟩, rest)
  | _, _ => none

/-- A header or a key with its value. -/
def statement? (doc : Document) (cs : List Char) : Option (Document × List Char) :=
  match cs with
  | '[' :: '[' :: cs => header? true doc cs
  | '[' :: cs => header? false doc cs
  | cs => do
    let (path, key, v, rest) ← pair? (value? maxDepth) cs
    let root ← Draft.modifyAt (Draft.store path key v) doc.header doc.root
    some (⟨root, doc.header⟩, rest)

/-- The statements of a document; the last argument bounds their number. -/
def statements? (doc : Document) : List Char → Nat → Option Document
  | _, 0 => none
  | cs, count + 1 =>
    match skipGap cs with
    | [] => some doc
    | cs => do
      let (doc, rest) ← statement? doc cs
      statements? doc (← endOfLine? rest) count

/-- The values of a document. A byte order mark may stand in front. -/
def read? (s : String) : Option TomlTable :=
  let cs :=
    match s.toList with
    | c :: cs => if c.toNat = 0xFEFF then cs else c :: cs
    | [] => []
  (statements? ⟨[], []⟩ cs (cs.length + 1)).map fun doc => Draft.finishedEntries doc.root

end CodeIndex.Toml

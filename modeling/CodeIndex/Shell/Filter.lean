import CodeIndex.Shell.Utility

/-!
# Programs on lines

* `filter?` : the program of a name that reads lines and writes some of them.
-/

namespace CodeIndex.Shell

/-- The text of each operand, or of standard input if there is none. -/
def inputs (program : String) (names : List String) (s : State) :
    List (Except String String) × State :=
  let names := if names.isEmpty then ["-"] else names
  (names.map fun name =>
    match contents s name with
    | .ok bytes => .ok (Text.Utf8.decode bytes)
    | .error e => .error (program ++ ": " ++ name ++ ": " ++ e.text ++ "\n"), s)

/-- The lines of a text; the last one need not be ended. -/
def linesOf (text : String) : List String :=
  let ls := Text.splitOn '\n' text.toList
  let ls := if ls.getLast? = some [] then ls.dropLast else ls
  ls.map String.ofList

/-- Each line with its end. -/
def asLines (ls : List String) : String := String.join (ls.map (· ++ "\n"))

/-- Writes what a program makes of each input; the status is one if one cannot be read. -/
def onInputs (program : String) (names : List String) (act : String → String) (s : State) :
    Nat × State :=
  (inputs program names s).1.foldl (fun (status, s) r =>
    match r with
    | .ok text => (status, s.writeText 1 (act text))
    | .error message => (1, s.writeText 2 message)) (0, s)

/-- A count of lines from the arguments, and the operands. -/
def lineCount (args : List String) : Nat × List String :=
  match args with
  | "-n" :: n :: names => (n.toNat?.getD 10, names)
  | a :: names =>
    match a.toList with
    | '-' :: 'n' :: ds => (((String.ofList ds).toNat?).getD 10, names)
    | '-' :: d :: ds =>
      if d.isDigit then (((String.ofList (d :: ds)).toNat?).getD 10, names) else (10, a :: names)
    | _ => (10, a :: names)
  | [] => (10, [])

/-- The first lines, or the first bytes. -/
def head : Utility := fun args s =>
  match args with
  | "-c" :: count :: names =>
    forAll (fun name s =>
      let n := blockSize count
      match contentsUpTo s n name with
      | .ok bytes => (0, s.write 1 (bytes.take n))
      | .error e => (1, complain "head" (name ++ ": " ++ e.text) s))
      (if names.isEmpty then ["-"] else names) s
  | args =>
    let (n, names) := lineCount args
    onInputs "head" names (fun t => asLines ((linesOf t).take n)) s

/-- The last lines, or the last bytes. -/
def tail : Utility := fun args s =>
  match args with
  | "-c" :: count :: names =>
    forAll (fun name s =>
      match contents s name with
      | .ok bytes => (0, s.write 1 (bytes.drop (bytes.length - blockSize count)))
      | .error e => (1, complain "tail" (name ++ ": " ++ e.text) s))
      (if names.isEmpty then ["-"] else names) s
  | args =>
  let (n, names) := lineCount args
  onInputs "tail" names
    (fun t =>
      let ls := linesOf t
      asLines (ls.drop (ls.length - n))) s

/-- All lines in order. -/
def sort : Utility := fun args s =>
  let (flags, names) := options args
  let (found, s) := inputs "sort" names s
  match found.findSome? fun r =>
    match r with
    | .error m => some m
    | .ok _ => none with
  | some message => (2, s.writeText 2 message)
  | none =>
    let ls := (found.flatMap fun r => linesOf (r.toOption.getD "")).mergeSort fun a b => a ≤ b
    let ls := if flags.contains 'u' then ls.eraseDups else ls
    let ls := if flags.contains 'r' then ls.reverse else ls
    (0, s.writeText 1 (asLines ls))

/-- Numbers on lines. -/
def seq : Utility := fun args s =>
  match args.map fun a => a.toNat?.getD 0 with
  | [last] => (0, s.writeText 1 (asLines ((List.range' 1 last).map Text.natText)))
  | [first, last] =>
    (0, s.writeText 1 (asLines ((List.range' first (last + 1 - first)).map Text.natText)))
  | _ => (1, complain "seq" "missing operand" s)

/-- Standard input, written to files too. -/
def tee : Utility := fun args s =>
  let (flags, names) := options args
  let bytes := s.input 0 0
  let s := s.write 1 bytes
  forAll (fun name s =>
    let old :=
      if flags.contains 'a' then (s.files.read s.self.cwd ⟨name⟩).toOption.getD [] else []
    changing "tee" name s (s.files.writeFile s.self.cwd ⟨name⟩ (old ++ bytes))) names s

/-- The characters that a set of `tr` stands for. -/
def trSet : List Char → List Char
  | '\\' :: 'n' :: cs => '\n' :: trSet cs
  | '\\' :: 't' :: cs => '\t' :: trSet cs
  | '\\' :: c :: cs => c :: trSet cs
  | a :: '-' :: b :: cs =>
    (List.range (b.toNat + 1 - a.toNat)).map (fun i => Char.ofNat (a.toNat + i)) ++ trSet cs
  | c :: cs => c :: trSet cs
  | [] => []

/-- A character for a character; the last one stands for all that have none. -/
def translate (source target : List Char) (c : Char) : Char :=
  match source.findIdx? (· = c) with
  | some i => (target[i]?).getD ((target.getLast?).getD c)
  | none => c

def tr : Utility := fun args s =>
  let text := (Text.Utf8.decode (s.input 0 0)).toList
  match args with
  | ["-d", set] =>
    (0, s.writeText 1 (String.ofList (text.filter fun c => !(trSet set.toList).contains c)))
  | [source, target] =>
    (0, s.writeText 1
      (String.ofList (text.map (translate (trSet source.toList) (trSet target.toList)))))
  | _ => (1, complain "tr" "missing operand" s)

/-! ## Lines with a pattern -/

/-- An atom of a pattern, and whether it may be repeated. -/
inductive Atom
  | any
  | one (c : Char)
  | set (negated : Bool) (members : List Char)
  deriving Repr, DecidableEq

def Atom.takes (c : Char) : Atom → Bool
  | .any => true
  | .one d => c = d
  | .set negated members => members.contains c != negated

/-- The atom at the front of a pattern. -/
def atom? : List Char → Option (Atom × List Char)
  | [] => none
  | '.' :: cs => some (.any, cs)
  | '\\' :: c :: cs => some (.one c, cs)
  | '[' :: '^' :: cs => some (.set true (trSet (cs.takeWhile (· != ']'))),
      (cs.dropWhile (· != ']')).drop 1)
  | '[' :: cs => some (.set false (trSet (cs.takeWhile (· != ']'))),
      (cs.dropWhile (· != ']')).drop 1)
  | c :: cs => some (.one c, cs)

/-- Whether a pattern takes the beginning of a text. -/
def takesStart : (fuel : Nat) → List Char → List Char → Bool
  | 0, _, _ => false
  | _ + 1, [], _ => true
  | _ + 1, ['$'], cs => cs.isEmpty
  | fuel + 1, ps, cs =>
    match atom? ps with
    | none => true
    | some (a, '*' :: ps') =>
      takesStart fuel ps' cs ||
        match cs with
        | c :: rest => a.takes c && takesStart fuel ps rest
        | [] => false
    | some (a, ps') =>
      match cs with
      | c :: rest => a.takes c && takesStart fuel ps' rest
      | [] => false

/-- The ends of a text, the longest first. -/
def suffixes : List Char → List (List Char)
  | [] => [[]]
  | c :: cs => (c :: cs) :: suffixes cs

/-- Whether a pattern takes any part of a line. -/
def hasMatch (pattern line : List Char) : Bool :=
  let fuel := pattern.length + line.length + 1
  match pattern with
  | '^' :: ps => takesStart fuel ps line
  | ps => (suffixes line).any (takesStart fuel ps)

def grep : Utility := fun args s =>
  let (flags, operands) := options args
  match operands with
  | [] => (2, complain "grep" "missing pattern" s)
  | pattern :: names =>
    let wanted (line : String) : Bool :=
      let plain (t : String) : List Char :=
        if flags.contains 'i' then (Text.lowerAscii t).toList else t.toList
      let found :=
        if flags.contains 'F' then
          (suffixes (plain line)).any fun t => (plain pattern).isPrefixOf t
        else hasMatch (plain pattern) (plain line)
      found != flags.contains 'v'
    let (found, s) := inputs "grep" names s
    let label (i : Nat) : String :=
      if names.length > 1 then (names[i]?.getD "") ++ ":" else ""
    let step := fun (acc : Bool × Bool × Nat × State) (r : Except String String) =>
      let (any, broken, i, s) := acc
      match r with
      | .error m => (any, true, i + 1, s.writeText 2 m)
      | .ok text =>
        let hits := (linesOf text).filter wanted
        let shown :=
          if flags.contains 'q' then ""
          else if flags.contains 'c' then label i ++ Text.natText hits.length ++ "\n"
          else if flags.contains 'l' then
            (if hits.isEmpty then "" else (names[i]?.getD "(standard input)") ++ "\n")
          else asLines (hits.map (label i ++ ·))
        (any || !hits.isEmpty, broken, i + 1, s.writeText 1 shown)
    let (any, broken, _, s) := found.foldl step (false, false, 0, s)
    (if broken then 2 else if any then 0 else 1, s)

/-- The program of a name that works on lines. -/
def filter? (name : String) : Option Utility :=
  match name with
  | "head" => some head
  | "tail" => some tail
  | "sort" => some sort
  | "seq" => some seq
  | "tee" => some tee
  | "tr" => some tr
  | "grep" => some grep
  | _ => none

/-- The names of the programs that work on lines. -/
def filterNames : List String := ["head", "tail", "sort", "seq", "tee", "tr", "grep"]

end CodeIndex.Shell

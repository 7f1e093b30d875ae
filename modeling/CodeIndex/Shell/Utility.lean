import CodeIndex.Shell.Format
import CodeIndex.Shell.Machine

/-!
# Standard utilities

Programs that need nothing but files and their descriptors. Each takes its arguments and gives its
exit status.

* `utility?` : the utility of a name.
-/

namespace CodeIndex.Shell

/-- A program: its arguments and what it does. -/
abbrev Utility := List String → State → Nat × State

/-- A message on the diagnostic stream. -/
def complain (program message : String) (s : State) : State :=
  s.writeText 2 (program ++ ": " ++ message ++ "\n")

/-- Splits arguments into option letters and operands. Words that begin with two dashes count as
no letters. -/
def options (args : List String) : List Char × List String :=
  let isOption := fun a : String => a.startsWith "-" && a != "-"
  let flags := args.takeWhile fun a => isOption a && a != "--"
  let rest := args.drop flags.length
  let operands := if rest.head? = some "--" then rest.tail else rest
  (flags.flatMap fun f => if f.startsWith "--" then [] else f.toList.drop 1, operands)

/-- Does one thing for each operand; the status is one if any of them fails. -/
def forAll (act : String → State → Nat × State) : Utility := fun args s =>
  args.foldl (fun (status, s) a =>
    let (status', s) := act a s
    (max status status', s)) (0, s)

/-- Changes the files, or says why not. -/
def changing (program message : String) (s : State) (r : Except Errno FileSystem) : Nat × State :=
  match r with
  | .ok fs => (0, s.setFiles fs)
  | .error e => (1, complain program (message ++ ": " ++ e.text) s)

/-- A name between single quotes. -/
def inQuotes (name : String) : String := "'" ++ name ++ "'"

/-! ## Output -/

/-- What `echo` writes. -/
def echoed (args : List String) : List UInt8 :=
  let (newline, args) := if args.head? = some "-n" then (false, args.tail) else (true, args)
  let text := Text.joinWith " " args
  let (bytes, ended) := unescaped (text.length + 1) text.toList
  bytes ++ if newline && !ended then [10] else []

def echo : Utility := fun args s => (0, s.write 1 (echoed args))

def printf : Utility := fun args s =>
  match args with
  | [] => (2, complain "printf" "missing operand" s)
  | format :: args => (0, s.write 1 (printed format args))

/-- What `pwd` writes. -/
def whereText (s : State) : String := (FileSystem.pathOf s.self.cwd).text ++ "\n"

def pwd : Utility := fun _ s => (0, s.writeText 1 (whereText s))

/-! ## Tests -/

/-- Whether a test with one operand holds; `none` if there is no such test. -/
def unaryTest? (s : State) (op operand : String) : Option Bool :=
  let path : Path := ⟨operand⟩
  let cwd := s.self.cwd
  match op with
  | "-n" => some (!operand.isEmpty)
  | "-z" => some operand.isEmpty
  | "-e" => some (s.files.pathExists cwd path)
  | "-f" => some (s.files.isFile cwd path)
  | "-d" => some (s.files.isDir cwd path)
  | "-r" | "-w" => some (s.files.pathExists cwd path)
  | "-x" =>
    some ((s.files.entry? cwd path).any fun e => e.isDir || e.isExecutable)
  | "-s" =>
    some (match s.files.size cwd path with
      | .ok n => n > 0
      | .error _ => false)
  | "-L" | "-h" =>
    some (match s.files.stat cwd path false with
      | .ok (_, e) => e.isLink
      | .error _ => false)
  | "-t" => some false
  | _ => none

/-- A number in a test. -/
def testNumber (t : String) : Except String Int :=
  match Text.readSigned (Text.trim t) with
  | .ok n => .ok n
  | .error _ => .error ("Illegal number: " ++ t)

/-- A comparison of two numbers. -/
def compared (holds : Int → Int → Bool) (a b : String) : Option (Except String Bool) :=
  some do
    let m ← testNumber a
    let n ← testNumber b
    .ok (holds m n)

/-- Whether a test with two operands holds; `none` if there is no such test. -/
def binaryTest? (a op b : String) : Option (Except String Bool) :=
  match op with
  | "=" | "==" => some (.ok (a = b))
  | "!=" => some (.ok (a ≠ b))
  | "-eq" => compared (fun m n => m = n) a b
  | "-ne" => compared (fun m n => m ≠ n) a b
  | "-lt" => compared (fun m n => m < n) a b
  | "-le" => compared (fun m n => m ≤ n) a b
  | "-gt" => compared (fun m n => n < m) a b
  | "-ge" => compared (fun m n => n ≤ m) a b
  | _ => none

/-- Whether a test of a few words holds, or why it makes no sense. -/
def simpleTest (s : State) : List String → Except String Bool
  | [] => .ok false
  | ["!"] => .ok true
  | "!" :: rest => (simpleTest s rest).map (!·)
  | [a] => .ok (!a.isEmpty)
  | [op, a] =>
    match unaryTest? s op a with
    | some b => .ok b
    | none =>
      if (binaryTest? "0" a "0").isSome then .error (a ++ ": argument expected")
      else .error (op ++ ": unexpected operator")
  | [a, op, b] => (binaryTest? a op b).getD (.error (a ++ ": unexpected operator"))
  | _ :: _ :: c :: _ => .error (c ++ ": unexpected operator")

/-- Splits words at a word. -/
def splitWords (sep : String) : List String → List (List String)
  | [] => [[]]
  | w :: ws =>
    match splitWords sep ws with
    | group :: groups => if w = sep then [] :: group :: groups else (w :: group) :: groups
    | [] => [[w]]

/-- Whether a test holds, or why it makes no sense. -/
def testHolds (s : State) (args : List String) : Except String Bool :=
  if args.length > 2 && args.any fun a => a = "-a" || a = "-o" then
    (splitWords "-o" args).foldlM (fun any group => do
      let all ← (splitWords "-a" group).foldlM (fun all words => do
        .ok (all && (← simpleTest s words))) true
      .ok (any || all)) false
  else simpleTest s args

/-- The status of a test; `say` tells what makes no sense. -/
def testStatus (say : String → State → State) (args : List String) (s : State) : Nat × State :=
  match testHolds s args with
  | .ok true => (0, s)
  | .ok false => (1, s)
  | .error message => (2, say message s)

/-- The status of a test between brackets. -/
def bracketStatus (say : String → State → State) (args : List String) (s : State) :
    Nat × State :=
  if args.getLast? = some "]" then testStatus say args.dropLast s else (2, say "missing ]" s)

def test : Utility := testStatus (complain "test")

def bracket : Utility := bracketStatus (complain "[")

/-! ## Files -/

/-- The bytes of a file, or of standard input for a dash; up to a number of them where there is no
end. -/
def contentsUpTo (s : State) (most : Nat) (name : String) : Except Errno (List UInt8) :=
  if name = "-" then .ok (s.input 0 most)
  else
    match s.files.stat s.self.cwd ⟨name⟩ true with
    | .ok (_, .device .zero) => .ok (List.replicate most 0)
    | _ => s.files.read s.self.cwd ⟨name⟩

/-- The bytes of a file, or of standard input for a dash. -/
def contents (s : State) (name : String) : Except Errno (List UInt8) := contentsUpTo s 0 name

def cat : Utility := fun args s =>
  let (_, names) := options args
  if s.isClosed 1 then (1, complain "cat" "standard output: Bad file descriptor" s)
  else forAll (fun name s =>
    match contents s name with
    | .ok bytes => (0, s.write 1 bytes)
    | .error e => (1, complain "cat" (name ++ ": " ++ e.text) s))
    (if names.isEmpty then ["-"] else names) s

/-- Adds a trailing part to a path if it leads to a directory. -/
def intoDirectory (s : State) (target source : String) : Path :=
  if s.files.isDir s.self.cwd ⟨target⟩ then
    Path.child ⟨target⟩ ((Path.fileName? ⟨source⟩).getD source)
  else ⟨target⟩

def rm : Utility := fun args s =>
  let (flags, names) := options args
  let force := flags.contains 'f'
  let deep := flags.contains 'r' || flags.contains 'R'
  forAll (fun name s =>
    if deep && ["." , ".."].contains ((name.splitOn "/").getLast?.getD "") then
      (1, complain "rm" ("refusing to remove '.' or '..' directory: skipping " ++ inQuotes name) s)
    else match s.files.stat s.self.cwd ⟨name⟩ false with
    | .error e =>
      if force && (e = .noEntry || e = .notDirectory) then (0, s)
      else (1, complain "rm" ("cannot remove " ++ inQuotes name ++ ": " ++ e.text) s)
    | .ok (_, e) =>
      if e.isDir && !deep then
        (1, complain "rm" ("cannot remove " ++ inQuotes name ++ ": Is a directory") s)
      else
        changing "rm" ("cannot remove " ++ inQuotes name) s
          (s.files.removeEntry s.self.cwd ⟨name⟩)) names s

def mkdir : Utility := fun args s =>
  let (flags, names) := options args
  forAll (fun name s =>
    let message := "cannot create directory " ++ inQuotes name
    if flags.contains 'p' then
      match s.files.createDirs s.self.cwd ⟨name⟩ with
      | (fs, none) => (0, s.setFiles fs)
      | (fs, some e) => (1, complain "mkdir" (message ++ ": " ++ e.text) (s.setFiles fs))
    else changing "mkdir" message s (s.files.createDir s.self.cwd ⟨name⟩ dirMode)) names s

def rmdir : Utility := fun args s =>
  forAll (fun name s =>
    let message := "failed to remove " ++ inQuotes name
    match s.files.stat s.self.cwd ⟨name⟩ false with
    | .ok (p, .dir _) =>
      if (s.files.names p).isEmpty then (0, s.setFiles (s.files.erase p))
      else (1, complain "rmdir" (message ++ ": " ++ Errno.notEmpty.text) s)
    | .ok _ => (1, complain "rmdir" (message ++ ": " ++ Errno.notDirectory.text) s)
    | .error e => (1, complain "rmdir" (message ++ ": " ++ e.text) s)) (options args).2 s

def mv : Utility := fun args s =>
  match (options args).2.reverse with
  | target :: sources =>
    forAll (fun source s =>
      let target := intoDirectory s target source
      match s.files.stat s.self.cwd ⟨source⟩ false with
      | .error e => (1, complain "mv" ("cannot stat " ++ inQuotes source ++ ": " ++ e.text) s)
      | .ok _ =>
        changing "mv" ("cannot move " ++ inQuotes source ++ " to " ++ inQuotes target.text) s
          (s.files.rename s.self.cwd ⟨source⟩ target)) sources.reverse s
  | [] => (1, complain "mv" "missing file operand" s)

/-- Copies a tree; links are made anew. -/
def copyDeep (s : State) (source target : String) : State :=
  let base := (s.files.canonical s.self.cwd ⟨source⟩).toOption.getD []
  let files := (s.files.below base).mergeSort fun a b => a.1.length ≤ b.1.length
  let copyOne (fs : FileSystem) (item : List String × Entry) : FileSystem :=
    let src : Path := ⟨source ++ "/" ++ Text.joinWith "/" item.1⟩
    let dst : Path := ⟨target ++ "/" ++ Text.joinWith "/" item.1⟩
    match item.2 with
    | .dir _ => (fs.createDirs s.self.cwd dst).1
    | .link l => (fs.createLink s.self.cwd l dst).toOption.getD fs
    | _ => (fs.copyFile s.self.cwd src dst).toOption.getD fs
  s.setFiles (files.foldl copyOne (s.files.createDirs s.self.cwd ⟨target⟩).1)

def cp : Utility := fun args s =>
  let (flags, names) := options args
  let deep := flags.any ['r', 'R', 'a'].contains
  match names.reverse with
  | target :: sources =>
    forAll (fun source s =>
      let target := intoDirectory s target source
      match s.files.stat s.self.cwd ⟨source⟩ true with
      | .error e => (1, complain "cp" ("cannot stat " ++ inQuotes source ++ ": " ++ e.text) s)
      | .ok (_, .dir _) =>
        if deep then (0, copyDeep s source target.text)
        else (1, complain "cp" ("-r not specified; omitting directory " ++ inQuotes source) s)
      | .ok _ =>
        changing "cp" ("cannot create regular file " ++ inQuotes target.text) s
          (s.files.copyFile s.self.cwd ⟨source⟩ target)) sources.reverse s
  | [] => (1, complain "cp" "missing file operand" s)

/-- A further name for a file. -/
def linkFile (files : FileSystem) (cwd : Place) (source name : Path) : Except Errno FileSystem := do
  let (_, entry) ← files.stat cwd source false
  let files ← files.createLink cwd source name
  let (place, _) ← files.stat cwd name false
  .ok (files.put place entry)

def ln : Utility := fun args s =>
  let (flags, names) := options args
  let soft := flags.contains 's'
  let link (source : String) (target : Path) : Nat × State :=
    let message := "failed to create " ++ (if soft then "symbolic" else "hard") ++ " link " ++
      inQuotes target.text
    let files :=
      if flags.contains 'f' then
        match s.files.removeFile s.self.cwd target with
        | .ok fs => fs
        | .error _ => s.files
      else s.files
    if soft then changing "ln" message s (files.createLink s.self.cwd ⟨source⟩ target)
    else changing "ln" message s (linkFile files s.self.cwd ⟨source⟩ target)
  match names with
  | [source, target] => link source (intoDirectory s target source)
  | [source] => link source ⟨(Path.fileName? ⟨source⟩).getD source⟩
  | _ => (1, complain "ln" "missing file operand" s)

/-- Makes a device. -/
def makeDevice (files : FileSystem) (cwd : Place) (kind : Device) (name : Path) :
    Except Errno FileSystem :=
  match files.lookup cwd name false with
  | .ok (.vacant place) => .ok (files.put place (.device kind))
  | .ok (.entry _ _) => .error .alreadyExists
  | .error e => .error e

/-- Of the devices, only those without contents can be made. -/
def mknod : Utility := fun args s =>
  match args with
  | [name, "c", "1", "3"] => changing "mknod" name s (makeDevice s.files s.self.cwd .null ⟨name⟩)
  | [name, "c", "1", "5"] => changing "mknod" name s (makeDevice s.files s.self.cwd .zero ⟨name⟩)
  | _ => (1, complain "mknod" "no such device" s)

def touch : Utility := fun args s =>
  forAll (fun name s =>
    if s.files.pathExists s.self.cwd ⟨name⟩ then (0, s)
    else
      changing "touch" ("cannot touch " ++ inQuotes name) s
        (s.files.writeFile s.self.cwd ⟨name⟩ [])) (options args).2 s

def chmod : Utility := fun args s =>
  match args with
  | mode :: names =>
    forAll (fun name s =>
      let bits : Option Nat :=
        if mode.toList.all isOctal && !mode.isEmpty then
          some (mode.toList.foldl (fun n c => n * 8 + (c.toNat - '0'.toNat)) 0)
        else
          match s.files.stat s.self.cwd ⟨name⟩ true with
          | .ok (_, .file _ old _) =>
            if mode = "+x" || mode = "a+x" then some (old ||| 0o111)
            else if mode = "u+x" then some (old ||| 0o100)
            else if mode = "-x" || mode = "a-x" then some (old &&& 0o666)
            else none
          | _ => none
      match bits with
      | some bits =>
        changing "chmod" ("cannot access " ++ inQuotes name) s
          (s.files.setMode s.self.cwd ⟨name⟩ bits)
      | none => (1, complain "chmod" ("invalid mode: " ++ inQuotes mode) s)) names s
  | [] => (1, complain "chmod" "missing operand" s)

/-- How many words a text has. -/
def wordCount (text : String) : Nat :=
  let blanks : List Char := [' ', '\n', '\t', '\r']
  let plain := text.toList.map fun c => if blanks.contains c then ' ' else c
  ((Text.splitOn ' ' plain).filter (!·.isEmpty)).length

def wc : Utility := fun args s =>
  let (flags, names) := options args
  forAll (fun name s =>
    match contents s name with
    | .ok bytes =>
      let counts : List (Char × Nat) :=
        [('l', bytes.count 10), ('w', wordCount (Text.Utf8.decode bytes)), ('c', bytes.length)]
      let shown := if flags.isEmpty then counts else counts.filter (flags.contains ·.1)
      let width := if shown.length > 1 && name = "-" then 7 else 0
      let numbers := shown.map fun (_, n) =>
        let text := Text.natText n
        String.ofList (List.replicate (width - text.length) ' ') ++ text
      let label := if name = "-" then [] else [name]
      (0, s.writeText 1 (Text.joinWith " " (numbers ++ label) ++ "\n"))
    | .error e => (1, complain "wc" (name ++ ": " ++ e.text) s))
    (if names.isEmpty then ["-"] else names) s

def ls : Utility := fun args s =>
  let names := (options args).2
  forAll (fun name s =>
    match s.files.stat s.self.cwd ⟨name⟩ true with
    | .ok (p, .dir _) =>
      let shown := ((s.files.names p).filter (!·.startsWith ".")).mergeSort fun a b => a ≤ b
      (0, s.writeText 1 (String.join (shown.map (· ++ "\n"))))
    | .ok _ => (0, s.writeText 1 (name ++ "\n"))
    | .error e =>
      (2, complain "ls" ("cannot access " ++ inQuotes name ++ ": " ++ e.text) s))
    (if names.isEmpty then ["."] else names) s

def basename : Utility := fun args s =>
  match args with
  | name :: rest =>
    let last := ((Path.fileName? ⟨name⟩).getD name).toList
    let ending := (rest.head?.getD "").toList
    let kept :=
      if ending.isSuffixOf last && ending != last then last.take (last.length - ending.length)
      else last
    (0, s.writeText 1 (String.ofList kept ++ "\n"))
  | [] => (1, complain "basename" "missing operand" s)

def readlink : Utility := fun args s =>
  match (options args).2 with
  | name :: _ =>
    match s.files.readLink s.self.cwd ⟨name⟩ with
    | .ok target => (0, s.writeText 1 (target.text ++ "\n"))
    | .error _ => (1, s)
  | [] => (1, complain "readlink" "missing operand" s)

def dirname : Utility := fun args s =>
  match args with
  | name :: _ =>
    let up := ((Path.parent? ⟨name⟩).getD ⟨name⟩).text
    (0, s.writeText 1 ((if up.isEmpty then "." else up) ++ "\n"))
  | [] => (1, complain "dirname" "missing operand" s)

/-- A size with its unit. -/
def blockSize (text : String) : Nat :=
  let digits := text.toList.takeWhile Char.isDigit
  let n := ((String.ofList digits).toNat?).getD 0
  match text.toList.drop digits.length with
  | 'k' :: _ | 'K' :: _ => n * 1024
  | 'M' :: _ => n * 1024 * 1024
  | _ => n

def dd : Utility := fun args s =>
  let value (key : String) : Option String :=
    (args.find? (·.startsWith (key ++ "="))).map fun a =>
      String.ofList (a.toList.drop (key.length + 1))
  let size := blockSize ((value "bs").getD "512")
  let all : Except Errno (List UInt8) :=
    match value "if" with
    | none =>
      .ok (s.input 0 (size * ((value "count").bind String.toNat?).getD 0))
    | some name =>
      match s.files.stat s.self.cwd ⟨name⟩ true with
      | .ok (_, .device .zero) =>
        .ok (List.replicate (size * ((value "count").bind String.toNat?).getD 0) 0)
      | _ => s.files.read s.self.cwd ⟨name⟩
  match all with
  | .error e =>
    (1, complain "dd" ("failed to open " ++ inQuotes ((value "if").getD "") ++ ": " ++ e.text) s)
  | .ok bytes =>
    let bytes :=
      match (value "count").bind String.toNat? with
      | some n => bytes.take (size * n)
      | none => bytes
    let blocks := Text.natText (bytes.length / max size 1) ++ "+" ++
      (if bytes.length % max size 1 = 0 then "0" else "1")
    let report (s : State) : State :=
      s.writeText 2 (blocks ++ " records in\n" ++ blocks ++ " records out\n")
    match value "of" with
    | none => (0, report (s.write 1 bytes))
    | some name =>
      let (status, s) := changing "dd" ("failed to open " ++ inQuotes name) s
        (s.files.writeFile s.self.cwd ⟨name⟩ bytes)
      (status, report s)

/-- The utility of a name. -/
def utility? (name : String) : Option Utility :=
  match name with
  | "echo" => some echo
  | "printf" => some printf
  | "pwd" => some pwd
  | "test" => some test
  | "[" => some bracket
  | "true" => some fun _ s => (0, s)
  | "false" => some fun _ s => (1, s)
  | "cat" => some cat
  | "rm" => some rm
  | "mkdir" => some mkdir
  | "rmdir" => some rmdir
  | "mv" => some mv
  | "cp" => some cp
  | "ln" => some ln
  | "mknod" => some mknod
  | "touch" => some touch
  | "chmod" => some chmod
  | "wc" => some wc
  | "ls" => some ls
  | "basename" => some basename
  | "dirname" => some dirname
  | "readlink" => some readlink
  | "dd" => some dd
  | _ => none

/-- The names of the utilities. -/
def utilityNames : List String :=
  ["echo", "printf", "pwd", "test", "[", "true", "false", "cat", "rm", "mkdir", "rmdir", "mv", "cp",
   "ln", "mknod", "touch", "chmod", "wc", "ls", "basename", "readlink", "dirname", "dd"]

end CodeIndex.Shell

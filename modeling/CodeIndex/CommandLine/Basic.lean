import CodeIndex.Path
import CodeIndex.Tool.Role

/-!
# Command lines

* `CommandLine` : all that a command line can say;
* `CommandLine.Argument` : the arguments, with their names and descriptions.
-/

namespace CodeIndex

/-- A shell for which there is a completion script. -/
inductive CompletionShell
  | bash
  | zsh
  | fish
  | powerShell
  | elvish
  deriving Repr, DecidableEq

namespace CompletionShell

def all : List CompletionShell := [.bash, .zsh, .fish, .powerShell, .elvish]

def name : CompletionShell → String
  | .bash => "bash"
  | .zsh => "zsh"
  | .fish => "fish"
  | .powerShell => "power-shell"
  | .elvish => "elvish"

/-- The shell of a name. -/
def ofName? (s : String) : Option CompletionShell := all.find? (·.name = s)

end CompletionShell

/-- All that a command line can say. The timeout is in seconds. -/
structure CommandLine where
  project : Option Path := none
  analyzer : Option Analyzer := none
  outputDir : Option Path := none
  jsonOutput : Option Path := none
  keepCopy : Bool := false
  checkTools : Bool := false
  timeout : Option Nat := none
  json : Bool := false
  printConfig : Bool := false
  completions : Option CompletionShell := none
  quiet : Bool := false
  noColor : Bool := false
  verbose : Bool := false
  deriving Repr, DecidableEq

namespace CommandLine

/-- What the program is called. -/
def programName : String := "generate-index"

/-- The version of the program. -/
def versionText : String := programName ++ " 0.1.0\n"

/-- Whether the command line asks for something that needs no project. -/
def standsAlone (line : CommandLine) : Bool :=
  line.checkTools || line.printConfig || line.completions.isSome

/-- An option without a value. -/
inductive Flag
  | keepCopy
  | checkTools
  | json
  | printConfig
  | quiet
  | noColor
  | verbose
  deriving Repr, DecidableEq

/-- An option with a value. -/
inductive ValueOption
  | analyzer
  | outputDir
  | jsonOutput
  | timeout
  | completions
  deriving Repr, DecidableEq

/-- An argument that a command line can have. -/
inductive Argument
  | project
  | option (o : ValueOption)
  | flag (f : Flag)
  | help
  | version
  deriving Repr, DecidableEq

/-- The command line with a flag set. -/
def withFlag (line : CommandLine) : Flag → CommandLine
  | .keepCopy => { line with keepCopy := true }
  | .checkTools => { line with checkTools := true }
  | .json => { line with json := true }
  | .printConfig => { line with printConfig := true }
  | .quiet => { line with quiet := true }
  | .noColor => { line with noColor := true }
  | .verbose => { line with verbose := true }

/-- The values that an option takes, with what they stand for. No values means any value. -/
def ValueOption.choices : ValueOption → List (String × Option String)
  | .analyzer => [("primary", some "verus-analyzer"), ("secondary", some "rust-analyzer")]
  | .completions => CompletionShell.all.map fun s => (s.name, none)
  | _ => []

/-- What stands for the value of an option in its descriptions. -/
def ValueOption.valueName : ValueOption → String
  | .analyzer => "ANALYZER"
  | .outputDir => "DIR"
  | .jsonOutput => "FILE"
  | .timeout => "SECS"
  | .completions => "SHELL"

namespace Argument

/-- The options in the order of the help. -/
def options : List Argument :=
  [.option .analyzer, .option .outputDir, .option .jsonOutput, .flag .keepCopy,
   .flag .checkTools, .option .timeout, .flag .json, .flag .printConfig, .option .completions,
   .flag .quiet, .flag .noColor, .flag .verbose, .help, .version]

/-- The name after two hyphens; none for the project. -/
def long : Argument → String
  | .project => ""
  | .option .analyzer => "analyzer"
  | .option .outputDir => "output-dir"
  | .option .jsonOutput => "json-output"
  | .option .timeout => "timeout"
  | .option .completions => "completions"
  | .flag .keepCopy => "keep-copy"
  | .flag .checkTools => "check-tools"
  | .flag .json => "json"
  | .flag .printConfig => "print-config"
  | .flag .quiet => "quiet"
  | .flag .noColor => "no-color"
  | .flag .verbose => "verbose"
  | .help => "help"
  | .version => "version"

/-- The letter after one hyphen. -/
def short? : Argument → Option Char
  | .option .analyzer => some 'a'
  | .option .outputDir => some 'o'
  | .option .jsonOutput => some 'j'
  | .flag .keepCopy => some 'k'
  | .flag .checkTools => some 'c'
  | .flag .verbose => some 'v'
  | .help => some 'h'
  | .version => some 'V'
  | _ => none

/-- What an argument is for; the help speaks of its other form. -/
def description (full : Bool) : Argument → String
  | .project => "Path to the project to index"
  | .option .analyzer => "Analyzer to use (default from config: primary)"
  | .option .outputDir => "Copy the project under this directory instead of a temp dir"
  | .option .jsonOutput => "Where to write the JSON export (default: next to the index)"
  | .option .timeout => "Kill an external tool after this many seconds (0 = no limit)"
  | .option .completions => "Print a shell completion script and exit"
  | .flag .keepCopy => "Keep the project copy after the run"
  | .flag .checkTools => "Only check that the required tools are installed"
  | .flag .json => "Print a JSON summary on stdout instead of human text"
  | .flag .printConfig => "Print the effective configuration as TOML and exit"
  | .flag .quiet => "Suppress progress output"
  | .flag .noColor => "Disable colored output"
  | .flag .verbose => "Debug-level logging on stderr"
  | .help => if full then "Print help (see a summary with '-h')"
      else "Print help (see more with '--help')"
  | .version => "Print version"

/-- What stands for the value of an argument in its descriptions. -/
def valueName? : Argument → Option String
  | .option o => some o.valueName
  | _ => none

/-- The values that an argument takes. -/
def choices : Argument → List (String × Option String)
  | .option o => o.choices
  | _ => []

/-- How an argument is called in messages. -/
def label (a : Argument) : String :=
  match a with
  | .project => "[PROJECT]"
  | .option o => "--" ++ a.long ++ " <" ++ o.valueName ++ ">"
  | _ => "--" ++ a.long

/-- The option of a long name. -/
def ofLong? (name : String) : Option Argument := options.find? (·.long = name)

/-- The option of a letter. -/
def ofShort? (c : Char) : Option Argument := options.find? (·.short? = some c)

end Argument

end CommandLine

end CodeIndex

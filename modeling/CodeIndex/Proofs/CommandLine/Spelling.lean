import CodeIndex.CommandLine.Reader

/-!
# How command lines are written

A command line can be written in many ways: each of its arguments once, in any order, options by
their long or their short names, values in the same argument or in the next, and the project
anywhere or behind two hyphens.

* `CommandLine.Says` : a text for the value of an option;
* `CommandLine.Spelled` : the words for an argument of a command line;
* `CommandLine.Arranged`, `CommandLine.Writes` : words for all of its arguments;
* `CommandLine.exists_writes` : every command line can be written.
-/

namespace CodeIndex

/-- All names of an analyzer. -/
def Analyzer.names : Analyzer → List String
  | .primary => ["primary", "verus-analyzer", "verus"]
  | .secondary => ["secondary", "rust-analyzer"]

namespace CommandLine

/-! ## What a command line has -/

/-- Whether a flag is set. -/
def has (line : CommandLine) : Flag → Bool
  | .keepCopy => line.keepCopy
  | .checkTools => line.checkTools
  | .json => line.json
  | .printConfig => line.printConfig
  | .quiet => line.quiet
  | .noColor => line.noColor
  | .verbose => line.verbose

/-- Whether there is anything to write for an argument. -/
def gives (line : CommandLine) : Argument → Bool
  | .project => line.project.isSome
  | .option .analyzer => line.analyzer.isSome
  | .option .outputDir => line.outputDir.isSome
  | .option .jsonOutput => line.jsonOutput.isSome
  | .option .timeout => line.timeout.isSome
  | .option .completions => line.completions.isSome
  | .flag f => line.has f
  | .help | .version => false

/-- Paths are not empty, and the timeout is an unsigned integer of 64 bits. -/
structure Proper (line : CommandLine) : Prop where
  project : ∀ p, line.project = some p → p.text ≠ ""
  outputDir : ∀ p, line.outputDir = some p → p.text ≠ ""
  jsonOutput : ∀ p, line.jsonOutput = some p → p.text ≠ ""
  timeout : ∀ n, line.timeout = some n → n ≤ Text.maxUnsigned

/-! ## Words -/

/-- Decimal digits for a number, with zeros before them and perhaps a plus sign. -/
def numeral (plus : Bool) (zeros n : Nat) : String :=
  String.ofList ((if plus then ['+'] else []) ++ List.replicate zeros '0' ++ Nat.toDigits 10 n)

/-- The text stands for the value that the command line has for an option. -/
inductive Says (line : CommandLine) : ValueOption → String → Prop
  | analyzer {kind : Analyzer} {name : String} (given : line.analyzer = some kind)
      (named : name ∈ kind.names) : Says line .analyzer name
  | outputDir {p : Path} (given : line.outputDir = some p) : Says line .outputDir p.text
  | jsonOutput {p : Path} (given : line.jsonOutput = some p) : Says line .jsonOutput p.text
  | timeout {n : Nat} (given : line.timeout = some n) (plus : Bool) (zeros : Nat) :
      Says line .timeout (numeral plus zeros n)
  | completions {shell : CompletionShell} (given : line.completions = some shell) :
      Says line .completions shell.name

/-- A word that is no option, be it by itself or before others. -/
def IsPlain (word : String) : Prop := word.toList.head? ≠ some '-'

instance : DecidablePred IsPlain := fun word =>
  inferInstanceAs (Decidable (word.toList.head? ≠ some '-'))

/-- A flag by its long or its short name. -/
inductive SpelledFlag (f : Flag) : String → Prop
  | long : SpelledFlag f ("--" ++ (Argument.flag f).long)
  | short {c : Char} (letter : (Argument.flag f).short? = some c) :
      SpelledFlag f (String.ofList ['-', c])

/-- An option with a value: in one word, or in two if the value is no option by itself. -/
inductive SpelledValue (o : ValueOption) (value : String) : List String → Prop
  | joined : SpelledValue o value ["--" ++ (Argument.option o).long ++ "=" ++ value]
  | apart (plain : IsPlain value) :
      SpelledValue o value ["--" ++ (Argument.option o).long, value]
  | short {c : Char} (letter : (Argument.option o).short? = some c) (plain : IsPlain value) :
      SpelledValue o value [String.ofList ['-', c], value]

/-- The words for an argument of a command line. -/
inductive Spelled (line : CommandLine) : Argument → List String → Prop
  | flag {f : Flag} {word : String} (set : line.has f = true) (spelled : SpelledFlag f word) :
      Spelled line (.flag f) [word]
  | option {o : ValueOption} {value : String} {words : List String} (meant : line.Says o value)
      (spelled : SpelledValue o value words) : Spelled line (.option o) words
  | project {p : Path} (given : line.project = some p) (plain : IsPlain p.text) :
      Spelled line .project [p.text]

/-- Some of the arguments of a command line with words for them, each once and in any order. -/
structure Arranged (line : CommandLine) (which : Argument → Prop)
    (parts : List (Argument × List String)) : Prop where
  once : (parts.map Prod.fst).Nodup
  all : ∀ a, a ∈ parts.map Prod.fst ↔ which a
  spelled : ∀ part ∈ parts, line.Spelled part.1 part.2

/-- The words for a whole command line. The project stands among the options, or last behind two
hyphens. -/
inductive Writes (line : CommandLine) : List String → Prop
  | among {parts : List (Argument × List String)}
      (arranged : line.Arranged (fun a => line.gives a = true) parts) :
      Writes line (parts.flatMap Prod.snd)
  | behind {parts : List (Argument × List String)} {p : Path} (given : line.project = some p)
      (arranged : line.Arranged (fun a => line.gives a = true ∧ a ≠ .project) parts) :
      Writes line (parts.flatMap Prod.snd ++ ["--", p.text])

/-! ## One way of writing -/

/-- The value of an option, if it has one. -/
def valueText? (line : CommandLine) : ValueOption → Option String
  | .analyzer => line.analyzer.map Analyzer.name
  | .outputDir => line.outputDir.map Path.text
  | .jsonOutput => line.jsonOutput.map Path.text
  | .timeout => line.timeout.map (numeral false 0)
  | .completions => line.completions.map CompletionShell.name

theorem says_of_valueText? {line : CommandLine} {o : ValueOption} {value : String}
    (h : line.valueText? o = some value) : line.Says o value := by
  cases o <;> obtain ⟨x, hx, rfl⟩ := Option.map_eq_some_iff.mp h
  · exact .analyzer hx (by cases x <;> decide)
  · exact .outputDir hx
  · exact .jsonOutput hx
  · exact .timeout hx false 0
  · exact .completions hx

/-- One word for an argument other than the project. -/
def wordFor (line : CommandLine) : Argument → String
  | .option o => "--" ++ (Argument.option o).long ++ "=" ++ (line.valueText? o).getD ""
  | a => "--" ++ a.long

theorem spelled_wordFor {line : CommandLine} {a : Argument} (gives : line.gives a = true)
    (ha : a ≠ .project) : line.Spelled a [line.wordFor a] := by
  cases a with
  | project => exact absurd rfl ha
  | flag f => exact .flag gives .long
  | option o =>
    have hvalue : (line.valueText? o).isSome = true := by
      cases o <;> exact Option.isSome_map.trans gives
    obtain ⟨value, hvalue⟩ := Option.isSome_iff_exists.mp hvalue
    rw [wordFor, hvalue]
    exact .option (says_of_valueText? hvalue) .joined
  | help => cases gives
  | version => cases gives

theorem mem_options {line : CommandLine} {a : Argument} (gives : line.gives a = true)
    (ha : a ≠ .project) : a ∈ Argument.options := by
  cases a with
  | project => exact absurd rfl ha
  | flag f => cases f <;> decide
  | option o => cases o <;> decide
  | help => cases gives
  | version => cases gives

/-- The options of a command line in the order of the help, each in a word of its own. -/
def optionParts (line : CommandLine) : List (Argument × List String) :=
  (Argument.options.filter line.gives).map fun a => (a, [line.wordFor a])

theorem arranged_optionParts (line : CommandLine) :
    line.Arranged (fun a => line.gives a = true ∧ a ≠ .project) line.optionParts := by
  have hfst : line.optionParts.map Prod.fst = Argument.options.filter line.gives := by
    rw [optionParts, List.map_map]
    exact List.map_id _
  have hproject : ∀ a ∈ Argument.options, a ≠ .project := by decide
  refine ⟨?_, fun a => ?_, fun part hpart => ?_⟩
  · rw [hfst]
    exact List.Pairwise.filter _ (by decide : Argument.options.Nodup)
  · rw [hfst, List.mem_filter]
    exact ⟨fun h => ⟨h.2, hproject a h.1⟩, fun h => ⟨mem_options h.1 h.2, h.1⟩⟩
  · obtain ⟨a, ha, rfl⟩ := List.mem_map.mp hpart
    obtain ⟨hmem, hgives⟩ := List.mem_filter.mp ha
    exact spelled_wordFor hgives (hproject a hmem)

/-- Every command line can be written, with its project behind two hyphens. -/
theorem exists_writes (line : CommandLine) : ∃ words, line.Writes words := by
  have harranged := arranged_optionParts line
  cases hproject : line.project with
  | some p => exact ⟨_, .behind hproject harranged⟩
  | none =>
    refine ⟨_, .among ⟨harranged.once, fun a => ?_, harranged.spelled⟩⟩
    rw [harranged.all]
    refine ⟨fun h => h.1, fun h => ⟨h, ?_⟩⟩
    rintro rfl
    simp [gives, hproject] at h

end CommandLine

end CodeIndex

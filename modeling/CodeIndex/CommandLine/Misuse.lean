import CodeIndex.CommandLine.Basic
import CodeIndex.Text.Integer
import CodeIndex.Text.Similarity

/-!
# Misuse of the command line

* `Misuse` : why arguments make no command line;
* `usageLine` : the line that shows how the program is called;
* `Misuse.text` : all that is said about it.
-/

namespace CodeIndex.CommandLine

/-- Why arguments make no command line. Where `used` is given, it holds the arguments that had been
understood, first to last. -/
inductive Misuse
  | unknownLong (name : String) (similar : Option Argument) (used : List Argument)
  | unknownShort (c : Char)
  | surplus (token : String) (trailing : Bool)
  | unwantedValue (argument : Argument) (value : String) (used : List Argument)
  | missingValue (argument : Argument)
  | unknownChoice (option : ValueOption) (value : String)
  | badNumber (option : ValueOption) (value : String) (cause : Text.IntegerError)
  | repeated (argument : Argument)
  | noProject (used : List Argument)
  deriving Repr, DecidableEq

/-- The usage of the program. Once arguments are in use they take the place of the general form. -/
def usageLine (used : List Argument) : String :=
  let shown :=
    if used.isEmpty then ["[OPTIONS]", "[PROJECT]"]
    else
      (used.filter (· ≠ .project)).map Argument.label ++
        [if used.contains .project then "<PROJECT>" else "[PROJECT]"]
  String.intercalate " " ("Usage:" :: programName :: shown)

/-- The usage of the program with every argument as an alternative. -/
def alternativesLine : String :=
  let own := Argument.options.filter fun a => a ≠ .help ∧ a ≠ .version
  "<" ++ String.intercalate "|" ("PROJECT" :: own.map Argument.label) ++ ">"

/-- The usage around an argument whose value was not wanted. -/
def unwantedLine (argument : Argument) (used : List Argument) : String :=
  if used.isEmpty then usageLine [argument]
  else
    let own := if argument = .help ∨ argument = .version then [argument.label] else []
    String.intercalate " " ("Usage:" :: programName :: own ++ [alternativesLine])

namespace Misuse

/-- What is wrong. -/
def message : Misuse → String
  | .unknownLong name _ _ => "unexpected argument '--" ++ name ++ "' found"
  | .unknownShort c => "unexpected argument '-" ++ String.singleton c ++ "' found"
  | .surplus token _ => "unexpected argument '" ++ token ++ "' found"
  | .unwantedValue argument value _ =>
    "unexpected value '" ++ value ++ "' for '" ++ argument.label ++
      "' found; no more were expected"
  | .missingValue argument =>
    "a value is required for '" ++ argument.label ++ "' but none was supplied"
  | .unknownChoice o value =>
    "invalid value '" ++ value ++ "' for '" ++ (Argument.option o).label ++ "'"
  | .badNumber o value cause =>
    "invalid value '" ++ value ++ "' for '" ++ (Argument.option o).label ++ "': " ++ cause.message
  | .repeated argument =>
    "the argument '" ++ argument.label ++ "' cannot be used multiple times"
  | .noProject _ => "the following required arguments were not provided:\n  <PROJECT>"

/-- The values to choose from. -/
def choicesNote (a : Argument) : String :=
  if a.choices.isEmpty then ""
  else "\n  [possible values: " ++ String.intercalate ", " (a.choices.map (·.1)) ++ "]"

/-- What may be meant. -/
def tip? : Misuse → Option String
  | .unknownLong _ (some a) _ => some ("a similar argument exists: '--" ++ a.long ++ "'")
  | .unknownLong name none _ => asValue ("--" ++ name)
  | .unknownShort c => asValue ("-" ++ String.singleton c)
  | .surplus token trailing =>
    if !trailing && token.startsWith "-" && token.length > 1 then asValue token else none
  | .unknownChoice o value =>
    (Text.mostSimilar? value (·.1) o.choices).map fun c =>
      "a similar value exists: '" ++ c.1 ++ "'"
  | _ => none
where
  asValue (token : String) : Option String :=
    some ("to pass '" ++ token ++ "' as a value, use '-- " ++ token ++ "'")

/-- How the program is called, where that helps. -/
def usage? : Misuse → Option String
  | .unknownLong _ _ used => some (usageLine used)
  | .unknownShort _ => some (usageLine [])
  | .surplus _ _ => some (usageLine [])
  | .unwantedValue argument _ used => some (unwantedLine argument used)
  | .repeated _ => some (usageLine [])
  | .noProject used => some (usageLine (used ++ [.project]))
  | .missingValue _ => none
  | .unknownChoice _ _ => none
  | .badNumber _ _ _ => none

/-- All that is said. -/
def text (e : Misuse) : String :=
  "error: " ++ e.message ++
    (match e with
     | .missingValue a => choicesNote a
     | .unknownChoice o _ => choicesNote (.option o)
     | _ => "") ++
    (match e.tip? with
     | some tip => "\n\n  tip: " ++ tip
     | none => "") ++
    (match e.usage? with
     | some usage => "\n\n" ++ usage
     | none => "") ++
    "\n\nFor more information, try '--help'.\n"

end Misuse

end CodeIndex.CommandLine

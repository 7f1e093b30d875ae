import CodeIndex.CommandLine.Misuse

/-!
# Help

* `shortHelp` : a line for each option;
* `fullHelp` : a paragraph for each option.
-/

namespace CodeIndex.CommandLine

/-- How an option is written, with room for the letter where there is none. -/
def optionForm (a : Argument) : String :=
  (match a.short? with
   | some c => "-" ++ String.singleton c ++ ", "
   | none => "    ") ++ a.label

/-- A text filled up with blanks. -/
def padded (width : Nat) (s : String) : String :=
  s ++ String.ofList (List.replicate (width - s.length) ' ')

/-- What is above the list of options. -/
def helpHead (about project : String) : String :=
  about ++ "\n\n" ++ usageLine [] ++ "\n\nArguments:\n" ++ project ++ "\n\nOptions:\n"

/-- A line for each option. -/
def shortHelp : String :=
  let width := (Argument.options.map fun a => (optionForm a).length).foldl max 0
  let choices (a : Argument) : String :=
    if a.choices.isEmpty then ""
    else " [possible values: " ++ String.intercalate ", " (a.choices.map (·.1)) ++ "]"
  let line (a : Argument) : String :=
    "  " ++ padded width (optionForm a) ++ "  " ++ a.description false ++ choices a ++ "\n"
  helpHead "Generate a SCIP index for a Rust project and export it as JSON"
    ("  [PROJECT]  " ++ Argument.project.description false) ++
    String.join (Argument.options.map line)

/-- The margin of a paragraph. -/
def margin : String := String.ofList (List.replicate 10 ' ')

/-- The values of an option: on lines of their own if they are explained, else on one line. -/
def choicesParagraph (choices : List (String × Option String)) : String :=
  let width := (choices.map fun c => c.1.length).foldl max 0
  let line (c : String × Option String) : String :=
    "\n" ++ margin ++ "- " ++ padded (width + 2) (c.1 ++ ":") ++ c.2.getD ""
  if choices.isEmpty then ""
  else if choices.all (·.2.isSome) then
    "\n\n" ++ margin ++ "Possible values:" ++ String.join (choices.map line)
  else
    "\n" ++ margin ++ "\n" ++ margin ++ "[possible values: " ++
      String.intercalate ", " (choices.map (·.1)) ++ "]"

/-- A paragraph for each option. -/
def fullHelp : String :=
  let paragraph (a : Argument) : String :=
    "  " ++ optionForm a ++ "\n" ++ margin ++ a.description true ++ choicesParagraph a.choices ++
      "\n"
  helpHead
    ("Copies PROJECT into an isolated workspace, runs the SCIP analyzer there, and converts " ++
      "the resulting binary index to JSON. The source project is never modified.")
    ("  [PROJECT]\n" ++ margin ++ Argument.project.description true) ++
    String.intercalate "\n" (Argument.options.map paragraph)

/-- The help. -/
def help (full : Bool) : String := if full then fullHelp else shortHelp

end CodeIndex.CommandLine

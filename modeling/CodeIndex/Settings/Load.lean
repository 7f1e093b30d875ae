import CodeIndex.FileSystem.Lookup
import CodeIndex.Settings.Decode
import CodeIndex.Text.Utf8
import CodeIndex.Toml.Reader

/-!
# Loading settings

Defaults are overridden by a file in a directory, and the file by variables of the environment.

* `Settings.fileNames` : the file names, of which the first that is there counts;
* `environmentLayer` : what the variables say;
* `Settings.load` : the settings for a directory and an environment.
-/

namespace CodeIndex

/-- The names of the settings file; the first one that is a file is read. -/
def Settings.fileNames : List String := ["generate-index.toml", ".generate-index.toml"]

/-- What the names of variables for settings begin with, in any case. -/
def variableStart : List Char := "generate_index_".toList

/-- Two underscores in the name of a variable lead into a table. -/
def dotted : List Char → List Char
  | '_' :: '_' :: cs => '.' :: dotted cs
  | c :: cs => c :: dotted cs
  | [] => []

/-- The setting that a variable names, if it names one. -/
def settingKey? (name : String) : Option String :=
  let cs := name.toList
  let start := cs.take variableStart.length
  if start.map Char.toLower = variableStart then
    some (String.ofList ((dotted (cs.drop variableStart.length)).map Char.toLower))
  else none

/-- What the value of a variable means: a truth value, an integer, a float, or itself. -/
def scalarOfText (s : String) : Scalar :=
  let word := Text.lowerAscii s
  if word = "true" then .boolean true
  else if word = "false" then .boolean false
  else
    match Text.readSigned s with
    | .ok n => .integer n
    | .error _ =>
      match Binary64.read? s with
      | some x => .float x
      | none => .text s

/-- The settings that variables hold. -/
def environmentLayer (environment : List (String × String)) : Layer :=
  environment.filterMap fun (name, value) =>
    (settingKey? name).map fun key =>
      (key, .leaf (some "the environment") (scalarOfText value))

/-- The settings file of a directory, if there is one. -/
def Settings.file? (fs : FileSystem) (cwd : Place) (dir : Path) : Option Path :=
  (Settings.fileNames.map dir.child).find? fun p => fs.isFile cwd p

/-- How a settings file is called in messages: seen from the working directory. -/
def originOf (cwd : Place) (file : Path) : String :=
  let here := FileSystem.pathOf cwd
  let full := here.join file
  ((full.relativeTo? here).getD full).text

/-- The settings that a file holds. -/
def fileLayer (fs : FileSystem) (cwd : Place) (file : Path) : Except LoadError Layer :=
  match fs.read cwd file with
  | .error e => .error (.other (IoError.message e))
  | .ok bytes =>
    match Toml.read? (Text.Utf8.decode bytes) with
    | none => .error .syntaxError
    | some entries => .ok (Setting.ofTomlEntries (some (originOf cwd file)) entries)

/-- The default analyzer. -/
def Settings.defaultKind (s : Settings) : Except SetupError Analyzer :=
  let name := Analyzer.normalized s.defaultAnalyzer
  match Analyzer.ofName? name with
  | some kind => .ok kind
  | none => .error (.noSuchAnalyzer name)

/-- The settings for a directory and an environment. -/
def Settings.load (fs : FileSystem) (cwd : Place) (dir : Path)
    (environment : List (String × String)) : Except SetupError Settings := do
  let fromFile ←
    match Settings.file? fs cwd dir with
    | some file => (fileLayer fs cwd file).mapError .unloadable
    | none => .ok []
  let root := (environmentLayer environment).onto (fromFile.onto Setting.empty)
  let settings ← (Settings.ofSetting root).mapError .unloadable
  let _ ← settings.defaultKind
  .ok settings

end CodeIndex

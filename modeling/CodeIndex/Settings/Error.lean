import CodeIndex.Decimal.Binary64
import CodeIndex.IoError

/-!
# Errors of configuration

* `LoadError` : why settings could not be read;
* `SetupError` : what is wrong before a run begins.
-/

namespace CodeIndex

/-- What stood where something else was expected. -/
inductive Unexpected
  | nothing
  | map
  | sequence
  | boolean (b : Bool)
  | integer (n : Int)
  | wideInteger (n : Int)
  | float (x : Binary64)
  | text (s : String)
  deriving Repr, DecidableEq

/-- A float that shows that it is one. -/
def pointedText (x : Binary64) : String :=
  match x with
  | .finite _ _ _ => if x.text.toList.contains '.' then x.text else x.text ++ ".0"
  | _ => x.text

def Unexpected.message : Unexpected → String
  | .nothing => "unit value"
  | .map => "map"
  | .sequence => "sequence"
  | .boolean b => "boolean `" ++ (if b then "true" else "false") ++ "`"
  | .integer n => "integer `" ++ Text.intText n ++ "`"
  | .wideInteger n => "64-bit integer `" ++ Text.intText n ++ "`"
  | .float x => "floating point `" ++ pointedText x ++ "`"
  | .text s => "string " ++ Text.quoted s

/-- Why settings could not be read. A value of the wrong type may be known to come from
somewhere; one that should have been a table or an array is not. -/
inductive LoadError
  | syntaxError
  | wrongType (found : Unexpected) (expected : String) (key : String) (origin : Option String)
  | wrongShape (found : Unexpected) (expected : String) (key : String)
  | other (text : String)
  deriving Repr, DecidableEq

def LoadError.message : LoadError → String
  | .syntaxError => "malformed document"
  | .wrongType found expected key origin =>
    "invalid type: " ++ found.message ++ ", expected " ++ expected ++ " for key `" ++ key ++ "`" ++
      (match origin with
       | some o => " in " ++ o
       | none => "")
  | .wrongShape found expected key =>
    "invalid type: " ++ found.message ++ ", expected " ++ expected ++ " for key `" ++ key ++ "`"
  | .other text => text

/-- What is wrong with a configuration. -/
inductive SetupError
  | projectMissing (path : Path)
  | projectIsFile (path : Path)
  | noSuchAnalyzer (name : String)
  | unresolved (path : Path) (cause : IoError)
  | noProject
  | unloadable (cause : LoadError)
  | unprintable (text : String)
  deriving Repr, DecidableEq

namespace SetupError

def message : SetupError → String
  | .projectMissing p => "source project not found: " ++ p.text
  | .projectIsFile p => "source is not a directory: " ++ p.text
  | .noSuchAnalyzer name =>
    "unknown analyzer kind `" ++ name ++ "` (expected `primary` or `secondary`)"
  | .unresolved p e => "cannot resolve path " ++ p.text ++ ": " ++ e.message
  | .noProject => "missing PROJECT argument"
  | .unloadable e => "failed to load configuration: " ++ e.message
  | .unprintable text => "failed to render configuration: " ++ text

/-- The messages of what caused the error, the nearest cause first. -/
def causes : SetupError → List String
  | .unresolved _ e => [e.message]
  | .unloadable e => [e.message]
  | _ => []

end SetupError

end CodeIndex

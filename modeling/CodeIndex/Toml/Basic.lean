import CodeIndex.Decimal.Binary64
import CodeIndex.Toml.Moment

/-!
# TOML values

* `Toml` : the values that a TOML document can hold;
* `TomlTable` : named values in the order in which they were written.
-/

namespace CodeIndex

/-- A value of a TOML document. -/
inductive Toml
  | text (s : String)
  | integer (n : Int)
  | float (x : Binary64)
  | boolean (b : Bool)
  | moment (m : Moment)
  | array (items : List Toml)
  | table (entries : List (String × Toml))
  deriving Repr

/-- Named values. -/
abbrev TomlTable := List (String × Toml)

end CodeIndex

import CodeIndex.Settings.KeyPath
import CodeIndex.Toml.Basic

/-!
# Layers of settings

Settings come from several sources, and a later one overrides an earlier one value by value. A
value remembers its source; a table that was merged has none.

* `Setting` : a value with its origin;
* `Setting.merge` : one value laid over another;
* `Setting.set` : a value laid over what is at a path.
-/

namespace CodeIndex

/-- A single value. -/
inductive Scalar
  | missing
  | boolean (b : Bool)
  | integer (n : Int)
  | float (x : Binary64)
  | text (s : String)
  deriving Repr, DecidableEq

/-- A value with the source it came from, if that is known. -/
inductive Setting
  | leaf (origin : Option String) (value : Scalar)
  | array (origin : Option String) (items : List Setting)
  | table (origin : Option String) (entries : List (String × Setting))
  deriving Repr

namespace Setting

/-- Stands where no value is. -/
def nothing : Setting := .leaf none .missing

/-- The table without values. -/
def empty : Setting := .table none []

def origin : Setting → Option String
  | .leaf o _ => o
  | .array o _ => o
  | .table o _ => o

/-- The values of a table; others have none. -/
def entries : Setting → List (String × Setting)
  | .table _ es => es
  | _ => []

/-- The origin of a table; anything else is replaced by a table that has none. -/
def tableOrigin : Setting → Option String
  | .table o _ => o
  | _ => none

/-- Changes the value of a key, which is added if it is missing. -/
def alter (f : Setting → Setting) (key : String) :
    List (String × Setting) → List (String × Setting)
  | [] => [(key, f nothing)]
  | (k, v) :: rest => if k = key then (k, f v) :: rest else (k, v) :: alter f key rest

mutual

/-- Lays a value over another: tables are merged, everything else is replaced. -/
def merge (base : Setting) : Setting → Setting
  | .table _ es => .table base.tableOrigin (mergeEntries base.entries es)
  | .array o items => .array o items
  | .leaf o v => .leaf o v

/-- Lays the values of a table over those of another. -/
def mergeEntries (base : List (String × Setting)) :
    List (String × Setting) → List (String × Setting)
  | [] => base
  | (k, v) :: rest => mergeEntries (alter (fun old => merge old v) k base) rest

end

/-- Changes the item at a position, which is made if the array is too short at either end. -/
def alterItem (f : Setting → Setting) (position : Int) (items : List Setting) : List Setting :=
  let (items, i) :=
    match position with
    | .ofNat i => (items ++ List.replicate (i + 1 - items.length) nothing, i)
    | .negSucc m =>
      let back := m + 1
      (List.replicate (back - items.length) nothing ++ items, items.length - back)
  items.modify i f

/-- Changes the value at a path, making the tables and arrays on the way. -/
def update (f : Setting → Setting) : KeyPath → Setting → Setting
  | [], v => f v
  | .key k :: rest, v => .table v.tableOrigin (alter (update f rest) k v.entries)
  | .index i :: rest, v =>
    match v with
    | .array o items => .array o (alterItem (update f rest) i items)
    | _ => .array none (alterItem (update f rest) i [])

/-- Lays a value over what is at a path. -/
def set (path : KeyPath) (value : Setting) (root : Setting) : Setting :=
  update (fun old => merge old value) path root

mutual

/-- The value of a document that came from `origin`. -/
def ofToml (origin : Option String) : Toml → Setting
  | .text s => .leaf origin (.text s)
  | .integer n => .leaf origin (.integer n)
  | .float x => .leaf origin (.float x)
  | .boolean b => .leaf origin (.boolean b)
  | .moment m => .leaf origin (.text m.text)
  | .array items => .array origin (ofTomlItems origin items)
  | .table entries => .table origin (ofTomlEntries origin entries)

def ofTomlItems (origin : Option String) : List Toml → List Setting
  | [] => []
  | v :: vs => ofToml origin v :: ofTomlItems origin vs

def ofTomlEntries (origin : Option String) : List (String × Toml) → List (String × Setting)
  | [] => []
  | (k, v) :: rest => (k, ofToml origin v) :: ofTomlEntries origin rest

end

end Setting

/-- A source of settings: keys, each of which may be a path, and values. -/
abbrev Layer := List (String × Setting)

/-- Lays a source over the settings so far. -/
def Layer.onto (layer : Layer) (base : Setting) : Setting :=
  layer.foldl (fun root (key, value) => Setting.set (KeyPath.ofText key) value root) base

end CodeIndex

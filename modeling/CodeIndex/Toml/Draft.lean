import CodeIndex.Toml.Basic

/-!
# Tables being built

A document may write the parts of a table in several places, and which places are allowed depends
on how the table came about. A `Draft` keeps that until the document ends.

* `Draft.store` : gives a dotted key a value;
* `Draft.openTable`, `Draft.openElement` : what the headers `[a.b]` and `[[a.b]]` do;
* `Draft.finished` : the values without the notes.
-/

namespace CodeIndex.Toml

/-- A value, a table or an array of tables, the last element first. A table is implicit if no
header or value has defined it, and dotted if a dotted key made it. -/
inductive Draft
  | value (v : Toml)
  | table (implicit dotted : Bool) (entries : List (String × Draft))
  | tables (elements : List (List (String × Draft)))

namespace Draft

/-- The drafts of a table's values. -/
abbrev Entries := List (String × Draft)

/-- Replaces the value of a key. -/
def Entries.replace (entries : Entries) (key : String) (d : Draft) : Entries :=
  entries.map fun (k, old) => if k = key then (k, d) else (k, old)

/-- Gives the key at the end of a dotted key a value. Tables on the way are made, or must have
been made by dotted keys. -/
def store : (path : List String) → (key : String) → Toml → Entries → Option Entries
  | [], key, v, entries =>
    if (entries.lookup key).isSome then none else some (entries ++ [(key, .value v)])
  | k :: ks, key, v, entries =>
    match entries.lookup k with
    | none => (store ks key v []).map fun es => entries ++ [(k, .table true true es)]
    | some (.table implicit dotted es) =>
      if !implicit || (ks.isEmpty && !dotted) then none
      else (store ks key v es).map fun es => entries.replace k (.table implicit dotted es)
    | some (.tables (es :: more)) =>
      if ks.isEmpty then none
      else (store ks key v es).map fun es => entries.replace k (.tables (es :: more))
    | some _ => none

/-- Changes the table at a path of headers. Tables on the way are made if they are missing; in
an array of tables the last one counts. -/
def modifyAt (f : Entries → Option Entries) : List String → Entries → Option Entries
  | [], entries => f entries
  | k :: ks, entries =>
    match entries.lookup k with
    | none => (modifyAt f ks []).map fun es => entries ++ [(k, .table true false es)]
    | some (.table implicit dotted es) =>
      (modifyAt f ks es).map fun es => entries.replace k (.table implicit dotted es)
    | some (.tables (es :: more)) =>
      (modifyAt f ks es).map fun es => entries.replace k (.tables (es :: more))
    | some _ => none

/-- Defines a table by a header. One that is defined already may not be defined again. -/
def openTable (path : List String) (key : String) (root : Entries) : Option Entries :=
  modifyAt (fun entries =>
    match entries.lookup key with
    | none => some (entries ++ [(key, .table false false [])])
    | some (.table true false es) => some (entries.replace key (.table false false es))
    | some _ => none) path root

/-- Adds an element to an array of tables by a header. -/
def openElement (path : List String) (key : String) (root : Entries) : Option Entries :=
  modifyAt (fun entries =>
    match entries.lookup key with
    | none => some (entries ++ [(key, .tables [[]])])
    | some (.tables elements) => some (entries.replace key (.tables ([] :: elements)))
    | some _ => none) path root

mutual

/-- The value without the notes. -/
def finished : Draft → Toml
  | .value v => v
  | .table _ _ entries => .table (finishedEntries entries)
  | .tables elements => .array (finishedElements elements).reverse

def finishedEntries : List (String × Draft) → TomlTable
  | [] => []
  | (k, d) :: rest => (k, finished d) :: finishedEntries rest

def finishedElements : List (List (String × Draft)) → List Toml
  | [] => []
  | entries :: rest => .table (finishedEntries entries) :: finishedElements rest

end

end Draft

end CodeIndex.Toml

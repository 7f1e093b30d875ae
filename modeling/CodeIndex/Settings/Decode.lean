import CodeIndex.Settings.Basic
import CodeIndex.Settings.Error
import CodeIndex.Settings.Layers

/-!
# From values to settings

A value is converted to the type a setting needs where that makes sense: scalars are written out
as texts, and numbers are read from texts.

* `Settings.ofSetting` : the settings that a table holds; missing ones take their defaults and
  unknown keys are ignored.
-/

namespace CodeIndex

namespace Setting

/-- What a value is where something else was expected. -/
def unexpected : Setting → Unexpected
  | .leaf _ .missing => .nothing
  | .leaf _ (.boolean b) => .boolean b
  | .leaf _ (.integer n) => .integer n
  | .leaf _ (.float x) => .float x
  | .leaf _ (.text s) => .text s
  | .array _ _ => .sequence
  | .table _ _ => .map

/-- A value as a text. -/
def toText (key : String) (v : Setting) : Except LoadError String :=
  match v with
  | .leaf _ (.text s) => .ok s
  | .leaf _ (.boolean b) => .ok (if b then "true" else "false")
  | .leaf _ (.integer n) => .ok (Text.intText n)
  | .leaf _ (.float x) => .ok x.text
  | v => .error (.wrongType v.unexpected "a string" key v.origin)

/-- A number written as a text, or a word for one or zero. -/
def countOfText? (s : String) : Option Nat :=
  let word := Text.lowerAscii s
  if word = "true" ∨ word = "on" ∨ word = "yes" then some 1
  else if word = "false" ∨ word = "off" ∨ word = "no" then some 0
  else (Text.readUnsigned s).toOption

/-- A value as an unsigned integer. -/
def toCount (key : String) (v : Setting) : Except LoadError Nat :=
  match v with
  | .leaf o (.integer n) =>
    if n < 0 then
      .error (.wrongType (.wideInteger n) "an unsigned 64 bit or less integer" key o)
    else .ok n.toNat
  | .leaf o (.text s) =>
    match countOfText? s with
    | some n => .ok n
    | none => .error (.wrongType (.text s) "an integer" key o)
  | .leaf _ (.boolean b) => .ok (if b then 1 else 0)
  | .leaf _ (.float x) => .ok x.toUnsigned
  | v => .error (.wrongType v.unexpected "an integer" key v.origin)

/-- The texts of an array, whose positions are counted from `i`. -/
def textsFrom (key : String) : Nat → List Setting → Except LoadError (List String)
  | _, [] => .ok []
  | i, v :: vs => do
    let s ← v.toText (key ++ "[" ++ Text.natText i ++ "]")
    let rest ← textsFrom key (i + 1) vs
    .ok (s :: rest)

/-- A value as texts. -/
def toTexts (key : String) (v : Setting) : Except LoadError (List String) :=
  match v with
  | .array _ items => textsFrom key 0 items
  | v => .error (.wrongShape v.unexpected "a sequence" key)

/-- The value of a key in a table, or a default. -/
def field {α : Type} (entries : List (String × Setting)) (key : String) (default : α)
    (read : Setting → Except LoadError α) : Except LoadError α :=
  match entries.lookup key with
  | some v => read v
  | none => .ok default

/-- A position of an array, or a default. -/
def item {α : Type} (items : List Setting) (i : Nat) (default : α)
    (read : Setting → Except LoadError α) : Except LoadError α :=
  match items[i]? with
  | some v => read v
  | none => .ok default

/-- A value as the names of the tools: a table, or an array with the names in order. -/
def toToolNames (v : Setting) : Except LoadError ToolNames := do
  let base : ToolNames := {}
  match v with
  | .table _ es => do
    let primary ← field es "primary" base.primary (toText "tools.primary")
    let secondary ← field es "secondary" base.secondary (toText "tools.secondary")
    let exporter ← field es "exporter" base.exporter (toText "tools.exporter")
    let subcommand ←
      field es "analyzer_subcommand" base.analyzerSubcommand (toText "tools.analyzer_subcommand")
    .ok ⟨primary, secondary, exporter, subcommand⟩
  | .array _ items => do
    let primary ← item items 0 base.primary (toText "tools[0]")
    let secondary ← item items 1 base.secondary (toText "tools[1]")
    let exporter ← item items 2 base.exporter (toText "tools[2]")
    let subcommand ← item items 3 base.analyzerSubcommand (toText "tools[3]")
    .ok ⟨primary, secondary, exporter, subcommand⟩
  | v => .error (.wrongShape v.unexpected "struct ToolsConfig" "tools")

end Setting

open Setting in
/-- The settings that a table holds. -/
def Settings.ofSetting (v : Setting) : Except LoadError Settings := do
  let base : Settings := {}
  let es := v.entries
  let defaultAnalyzer ←
    field es "default_analyzer" base.defaultAnalyzer (toText "default_analyzer")
  let indexExtension ← field es "index_extension" base.indexExtension (toText "index_extension")
  let jsonFileName ← field es "json_file_name" base.jsonFileName (toText "json_file_name")
  let tempPrefix ← field es "temp_prefix" base.tempPrefix (toText "temp_prefix")
  let timeoutSecs ← field es "timeout_secs" base.timeoutSecs (toCount "timeout_secs")
  let probeTimeoutSecs ←
    field es "probe_timeout_secs" base.probeTimeoutSecs (toCount "probe_timeout_secs")
  let copyExclude ← field es "copy_exclude" base.copyExclude (toTexts "copy_exclude")
  let tools ← field es "tools" base.tools toToolNames
  .ok ⟨defaultAnalyzer, indexExtension, jsonFileName, tempPrefix, timeoutSecs, probeTimeoutSecs,
    copyExclude, tools⟩

end CodeIndex

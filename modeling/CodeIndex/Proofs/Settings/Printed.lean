import CodeIndex.Proofs.Settings.Layered
import CodeIndex.Proofs.Text.Utf8
import CodeIndex.Proofs.Toml.Document

/-!
# Printed settings

Settings that are printed to a settings file are loaded again as they were, whatever texts are in
them. The exception are numbers: more seconds than a signed integer can hold are printed, but a
document with them is malformed.

* `Settings.read?_document` : the document of settings is read back;
* `Settings.fits_toTable`, `Settings.leaf?_toTable` : its values are those of the settings;
* `Settings.load_document_iff` : the settings that are loaded from it;
* `Settings.long_limit_malformed` : a number that is printed and not loaded.
-/

namespace CodeIndex.Settings

open Toml

/-! ## The document of settings -/

/-- The values of settings before their numbers. -/
def textTable (s : Settings) : TomlTable :=
  [("default_analyzer", .text s.defaultAnalyzer),
   ("index_extension", .text s.indexExtension),
   ("json_file_name", .text s.jsonFileName),
   ("temp_prefix", .text s.tempPrefix)]

/-- The values of settings that are no tables. -/
def plainTable (s : Settings) : TomlTable :=
  s.textTable ++
    [("timeout_secs", .integer (Int.ofNat s.timeoutSecs)),
     ("probe_timeout_secs", .integer (Int.ofNat s.probeTimeoutSecs)),
     ("copy_exclude", .array (s.copyExclude.map .text))]

/-- The names of the tools. -/
def toolTable (s : Settings) : TomlTable :=
  [("primary", .text s.tools.primary),
   ("secondary", .text s.tools.secondary),
   ("exporter", .text s.tools.exporter),
   ("analyzer_subcommand", .text s.tools.analyzerSubcommand)]

theorem toTable_eq (s : Settings) :
    s.toTable = s.plainTable ++ asTables [("tools", s.toolTable)] := rfl

variable {s : Settings}

/-- Values that are read back can be written under keys without quotes. -/
theorem writable_of_keys {es : TomlTable} (keys : List String) (hkeys : es.map Prod.fst = keys)
    (bare : keys.all isBareKey = true) (nodup : keys.Nodup)
    (reads : ∀ v ∈ es.map Prod.snd, ReadsBack maxDepth v ∧ v.isTable = false) : Writable es := by
  subst hkeys
  have hreads : ∀ e ∈ es, ReadsBack maxDepth e.2 ∧ e.2.isTable = false :=
    fun e he => reads e.2 (List.mem_map_of_mem he)
  exact ⟨fun e he => List.all_eq_true.mp bare e.1 (List.mem_map_of_mem he),
    fun e he => (hreads e he).1, fun e he => (hreads e he).2, nodup⟩

theorem reads_text (t : String) : ReadsBack maxDepth (.text t) ∧ (Toml.text t).isTable = false :=
  ⟨readsBack_text maxDepth t, rfl⟩

theorem writable_textTable (s : Settings) : Writable s.textTable := by
  refine writable_of_keys ["default_analyzer", "index_extension", "json_file_name",
    "temp_prefix"] rfl (by decide +kernel) (by decide) fun v hv => ?_
  simp only [textTable, List.map_cons, List.map_nil, List.mem_cons, List.not_mem_nil,
    or_false] at hv
  obtain rfl | rfl | rfl | rfl := hv <;> exact reads_text _

theorem writable_toolTable (s : Settings) : Writable s.toolTable := by
  refine writable_of_keys ["primary", "secondary", "exporter", "analyzer_subcommand"]
    rfl (by decide +kernel) (by decide) fun v hv => ?_
  simp only [toolTable, List.map_cons, List.map_nil, List.mem_cons, List.not_mem_nil,
    or_false] at hv
  obtain rfl | rfl | rfl | rfl := hv <;> exact reads_text _

/-- The keys of settings that are no tables. -/
def plainKeys : List String :=
  ["default_analyzer", "index_extension", "json_file_name", "temp_prefix", "timeout_secs",
    "probe_timeout_secs", "copy_exclude"]

theorem writable_plainTable (timeout : s.timeoutSecs ≤ Text.maxSigned)
    (probe : s.probeTimeoutSecs ≤ Text.maxSigned) : Writable s.plainTable := by
  refine writable_of_keys plainKeys rfl (by decide +kernel) (by decide) fun v hv => ?_
  rw [plainTable, List.map_append, List.mem_append] at hv
  obtain hv | hv := hv
  · obtain ⟨e, he, rfl⟩ := List.mem_map.mp hv
    exact ⟨(writable_textTable s).reads e he, (writable_textTable s).plain e he⟩
  · simp only [List.map_cons, List.map_nil, List.mem_cons, List.not_mem_nil, or_false] at hv
    obtain rfl | rfl | rfl := hv
    · exact ⟨readsBack_integer maxDepth timeout, rfl⟩
    · exact ⟨readsBack_integer maxDepth probe, rfl⟩
    · have hreads : ∀ v ∈ s.copyExclude.map Toml.text, ReadsBack 79 v := by
        intro v hv
        obtain ⟨t, -, rfl⟩ := List.mem_map.mp hv
        exact readsBack_text 79 t
      exact ⟨readsBack_array hreads, rfl⟩

/-- The document of settings with numbers in range is read back. -/
theorem read?_document (timeout : s.timeoutSecs ≤ Text.maxSigned)
    (probe : s.probeTimeoutSecs ≤ Text.maxSigned) : read? s.document = some s.toTable := by
  rw [document, toTable_eq]
  refine Toml.read?_document (writable_plainTable timeout probe) ?_ ?_
    (by decide : (plainKeys ++ ["tools"]).Nodup)
  · intro t ht
    obtain rfl := List.mem_singleton.mp ht
    show isBareKey "tools" = true
    decide +kernel
  · intro t ht
    obtain rfl := List.mem_singleton.mp ht
    exact writable_toolTable s

/-- The document of settings with a number out of range is malformed. -/
theorem read?_document_none (h : ¬ (s.timeoutSecs ≤ Text.maxSigned ∧
    s.probeTimeoutSecs ≤ Text.maxSigned)) : read? s.document = none := by
  by_cases timeout : s.timeoutSecs ≤ Text.maxSigned
  · have probe : Text.maxSigned < s.probeTimeoutSecs := by omega
    have hbefore : Writable (s.textTable ++
        [("timeout_secs", .integer (Int.ofNat s.timeoutSecs))]) := by
      refine writable_of_keys ["default_analyzer", "index_extension", "json_file_name",
        "temp_prefix", "timeout_secs"] rfl (by decide +kernel) (by decide) fun v hv => ?_
      rw [List.map_append, List.mem_append] at hv
      obtain hv | hv := hv
      · obtain ⟨e, he, rfl⟩ := List.mem_map.mp hv
        exact ⟨(writable_textTable s).reads e he, (writable_textTable s).plain e he⟩
      · obtain rfl := List.mem_singleton.mp hv
        exact ⟨readsBack_integer maxDepth timeout, rfl⟩
    exact read?_document_beyond hbefore (by decide +kernel : isBareKey "probe_timeout_secs" = true)
      probe [("copy_exclude", .array (s.copyExclude.map .text)), ("tools", .table s.toolTable)]
  · exact read?_document_beyond (writable_textTable s)
      (by decide +kernel : isBareKey "timeout_secs" = true) (Nat.lt_of_not_le timeout)
      [("probe_timeout_secs", .integer (Int.ofNat s.probeTimeoutSecs)),
        ("copy_exclude", .array (s.copyExclude.map .text)), ("tools", .table s.toolTable)]

/-! ## Loading the document -/

theorem mapM_text (xs : List String) : (xs.map Toml.text).mapM Toml.text? = some xs := by
  induction xs with
  | nil => rfl
  | cons x xs ih => simp [List.mapM_cons, ih, Toml.text?]

/-- The document gives each setting its value. -/
theorem leaf?_toTable (s : Settings) (l : Leaf) : leaf? s.toTable l = some (s.leaf l) := by
  cases l with
  | timeoutSecs => rfl
  | probeTimeoutSecs => rfl
  | copyExclude =>
    show (([Toml.array (s.copyExclude.map .text)]).filterMap LeafKind.texts.ofToml?).getLast? = _
    rw [List.filterMap_cons_some (by rw [LeafKind.ofToml?, mapM_text]; rfl)]
    rfl
  | _ => rfl

/-- All values of the document are of the right kinds. -/
theorem fits_toTable (s : Settings) : ∀ e ∈ s.toTable, Fits e.1 e.2 := by
  intro e he
  simp only [toTable, List.mem_cons, List.not_mem_nil, or_false] at he
  obtain rfl | rfl | rfl | rfl | rfl | rfl | rfl | rfl := he
  · exact .leaf (l := .defaultAnalyzer) rfl rfl
  · exact .leaf (l := .indexExtension) rfl rfl
  · exact .leaf (l := .jsonFileName) rfl rfl
  · exact .leaf (l := .tempPrefix) rfl rfl
  · exact .leaf (l := .timeoutSecs) rfl rfl
  · exact .leaf (l := .probeTimeoutSecs) rfl rfl
  · refine .leaf (l := .copyExclude) rfl ?_
    show (((s.copyExclude.map Toml.text).mapM Toml.text?).map LeafValue.texts).isSome = true
    rw [mapM_text]
    rfl
  · refine .tools fun l name w hl hw => ?_
    simp only [List.mem_cons, List.not_mem_nil, or_false, Prod.mk.injEq] at hw
    obtain ⟨rfl, rfl⟩ | ⟨rfl, rfl⟩ | ⟨rfl, rfl⟩ | ⟨rfl, rfl⟩ := hw <;>
      cases l <;> first | rfl | simp [Leaf.path] at hl

variable {fs : FileSystem} {cwd : Place} {dir : Path} {id mode : Nat}

/-- A settings file that is malformed is not loaded. -/
theorem load_malformed {bytes : List UInt8}
    (found : fs.entry? cwd (dir.child "generate-index.toml") = some (.file id mode bytes))
    (malformed : read? (Text.Utf8.decode bytes) = none) (environment : List (String × String)) :
    load fs cwd dir environment = .error (.unloadable .syntaxError) := by
  obtain ⟨isFile, read⟩ := file_of_entry found
  have hfile : file? fs cwd dir = some (dir.child "generate-index.toml") := by
    simp [file?, fileNames, isFile]
  simp only [load, hfile, fileLayer, read, malformed]
  rfl

/-- Settings in range are loaded from their document as they were. -/
theorem load_document (named : (Analyzer.ofName? (Analyzer.normalized s.defaultAnalyzer)).isSome)
    (found : fs.entry? cwd (dir.child "generate-index.toml") =
      some (.file id mode (Text.Utf8.encode s.document)))
    (timeout : s.timeoutSecs ≤ Text.maxSigned) (probe : s.probeTimeoutSecs ≤ Text.maxSigned) :
    load fs cwd dir [] = .ok s := by
  have hvalid : read? (Text.Utf8.decode (Text.Utf8.encode s.document)) = some s.toTable := by
    rw [Text.Utf8.decode_encode]
    exact read?_document timeout probe
  have hnone : ∀ e ∈ ([] : List (String × String)), VariableFits e.1 e.2 :=
    fun e he => absurd he List.not_mem_nil
  obtain ⟨t, hload, hleaf⟩ := (Consulted.main found hvalid).load_fits (fits_toTable s) hnone
  have hsame : t = s := by
    refine eq_of_leaf fun l => ?_
    rw [hleaf, leaf?_toTable]
    rfl
  obtain ⟨kind, hkind⟩ := Option.isSome_iff_exists.mp named
  rw [hload, hsame, defaultKind, hkind]
  rfl

/-- Settings whose default analyzer is one are loaded from their document as they were, exactly if
their numbers are in the range of signed integers. -/
theorem load_document_iff
    (named : (Analyzer.ofName? (Analyzer.normalized s.defaultAnalyzer)).isSome)
    (found : fs.entry? cwd (dir.child "generate-index.toml") =
      some (.file id mode (Text.Utf8.encode s.document))) :
    load fs cwd dir [] = .ok s ↔
      s.timeoutSecs ≤ Text.maxSigned ∧ s.probeTimeoutSecs ≤ Text.maxSigned := by
  refine ⟨fun hload => ?_, fun ⟨timeout, probe⟩ => load_document named found timeout probe⟩
  refine Decidable.byContradiction fun hrange => ?_
  have hnone : read? (Text.Utf8.decode (Text.Utf8.encode s.document)) = none := by
    rw [Text.Utf8.decode_encode]
    exact read?_document_none hrange
  rw [load_malformed found hnone] at hload
  cases hload

/-- Settings with texts that need each of the four kinds of quotes. -/
def awkwardSettings : Settings :=
  { defaultAnalyzer := " Verus ", indexExtension := "a\"b", jsonFileName := "c\\d\x00'\"\"\"",
    tempPrefix := "e\n''f\"\"\"", copyExclude := ["g\"\"\nh", "i''' j\n\"\"\"", "é"] }

theorem awkward_settings_loaded :
    load (settingsFiles awkwardSettings.document) [] ⟨"/work"⟩ [] = .ok awkwardSettings :=
  (load_document_iff (by decide +kernel) (settingsFiles_entry _)).mpr (by decide)

/-- Settings with a limit that is one second beyond the range of signed integers. -/
def longSettings : Settings := { timeoutSecs := 9223372036854775808 }

/-- The default analyzer is one and the settings are printed, but what is printed is malformed. -/
theorem long_limit_malformed :
    (Analyzer.ofName? (Analyzer.normalized longSettings.defaultAnalyzer)).isSome ∧
    FileSystem.entry? (settingsFiles longSettings.document) []
      ((Path.mk "/work").child "generate-index.toml") =
        some (.file 0 fileMode (Text.Utf8.encode longSettings.document)) ∧
    load (settingsFiles longSettings.document) [] ⟨"/work"⟩ [] ≠ .ok longSettings := by
  have hnone : read? (Text.Utf8.decode (Text.Utf8.encode longSettings.document)) = none := by
    rw [Text.Utf8.decode_encode]
    exact read?_document_none (by decide)
  refine ⟨by decide +kernel, settingsFiles_entry _, ?_⟩
  rw [load_malformed (settingsFiles_entry longSettings.document) hnone]
  intro heq
  cases heq

end CodeIndex.Settings

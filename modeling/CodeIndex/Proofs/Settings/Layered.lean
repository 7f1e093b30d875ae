import CodeIndex.Proofs.Settings.Given
import CodeIndex.Proofs.Settings.Loading
import CodeIndex.Proofs.Text.Utf8

/-!
# Settings from several sources

Each setting has the value of the variable that names it, or else the one in the settings file, or
else its default, whatever the other settings have. What a source says of one setting does not reach
another, be it in the same table. The exception are keys of a file that are read as paths: one that
leads to a setting is not unknown, though it is none of the keys of settings.

* `Carries.set_document`, `Carries.set_variable` : what one entry of a source does to the settings;
* `Carries.document`, `Carries.environment` : what a whole source does to them;
* `Settings.Consulted` : which of the two settings files is read;
* `Settings.Consulted.load_fits`, `Settings.load_layered` : the settings that are loaded, one by one;
* `Settings.quoted_path_is_read` : a key that is a path to a setting.
-/

namespace CodeIndex

open Setting

/-! ## Laying values over settings -/

theorem ofText_text (l : Leaf) : KeyPath.ofText l.text = keys l.path := by
  cases l <;> rfl

theorem text_injective {l l' : Leaf} (h : l.text = l'.text) : l = l' := by
  cases l <;> cases l' <;> first | rfl | exact absurd h (by decide)

theorem parts_keys_self (ns : List String) : parts (keys ns) ns = false := by
  induction ns with
  | nil => rfl
  | cons n ns ih => simpa [keys, parts] using ih

/-- The paths of two settings part. -/
theorem parts_of_ne {l l' : Leaf} (h : l ≠ l') : parts (keys l.path) l'.path = true := by
  cases l <;> cases l' <;> first | rfl | exact absurd rfl h

/-- An entry of the document that is for a setting gives its value to this setting only. -/
theorem leaf?_entry {l : Leaf} {k : String} {v : Toml} {x : LeafValue} (path : l.path = [k])
    (hx : l.kind.ofToml? v = some x) (l' : Leaf) :
    Toml.leaf? [(k, v)] l' = if l' = l then some x else none := by
  by_cases hne : l' = l
  · subst hne
    rw [if_pos rfl, leaf?_single path]
    simp [Toml.valuesAt, hx]
  · have hparts := parts_of_ne (Ne.symm hne)
    rw [if_neg hne]
    refine leaf?_single_of_ne fun ks hks => ?_
    rw [path, hks] at hparts
    simp [keys, parts] at hparts

/-- An entry whose key is not known gives no setting a value. -/
theorem leaf?_unknown {k : String} (unknown : ∀ l : Leaf, parts (KeyPath.ofText k) l.path = true)
    (v : Toml) (l : Leaf) : Toml.leaf? [(k, v)] l = none := by
  refine leaf?_single_of_ne fun ks hks => ?_
  have hkey : ∀ (l : Leaf) k ks, l.path = k :: ks → KeyPath.ofText k = [.key k] := by
    intro l k ks hl
    cases l <;> cases hl <;> rfl
  have hparts := unknown l
  rw [hkey l k ks hks, hks] at hparts
  simp [parts] at hparts

/-- A variable gives its value to the setting that it names. -/
theorem assigned?_single {name value key : String} (hkey : settingKey? name = some key)
    (l : Leaf) : assigned? [(name, value)] l =
      if key = l.text then l.kind.ofVariable? value else none := by
  rw [assigned?, getLast?_filterMap_cons]
  simp [hkey]

/-- The tools stay a table after an update that leads by them or into them. -/
theorem tools_update {root : Setting} (h : ∀ v, root.find? ["tools"] = some v → v.isTable = true)
    {p : KeyPath} {name : String} (hp : parts p ["tools", name] = true) (g : Setting → Setting) :
    ∀ v, (update g p root).find? ["tools"] = some v → v.isTable = true := by
  intro v hv
  cases p with
  | nil => cases hp
  | cons step p =>
    cases step with
    | index i => cases hp
    | key k =>
      by_cases hk : k = "tools"
      · subst hk
        cases p with
        | nil => cases hp
        | cons step p =>
          cases step with
          | index i => cases hp
          | key k =>
            have hfound := find?_update (update g (.key k :: p)) ["tools"] [] root
            have hwhole : update (update g (.key k :: p)) (keys ["tools"]) root =
                update g (.key "tools" :: .key k :: p) root := rfl
            rw [List.append_nil, hwhole, hv] at hfound
            obtain rfl := Option.some.inj hfound
            rfl
      · have hparts : parts (.key k :: p) ["tools"] = true := by
          simp [parts, hk]
        rw [find?_update_of_parts g hparts] at hv
        exact h v hv

/-- What is at the tools, and below, after something is laid over them. -/
theorem find?_set_tools (root : Setting) (ks : List String) (v : Setting) :
    find? (["tools"] ++ ks) (Setting.set (KeyPath.ofText "tools") v root) =
      find? ks (merge ((find? ["tools"] root).getD nothing) v) :=
  find?_update (fun old => merge old v) ["tools"] ks root

theorem find?_set_tools_of_ne {k : String} (hk : k ≠ "tools") (v root : Setting) :
    find? [k] (Setting.set (KeyPath.ofText "tools") v root) = find? [k] root := by
  have hparts : parts (KeyPath.ofText "tools") [k] = true := by
    show ("tools" != k || _) = true
    simp [hk.symm]
  exact find?_update_of_parts _ hparts root

/-- A name in a table that is laid over the tools has its last value there, or else the old one. -/
theorem find?_set_toolTable (root : Setting) (origin : Option String) {name : String}
    {es : TomlTable} (plain : ∀ w, (name, w) ∈ es → (ofToml origin w).isTable = false) :
    find? ["tools", name] (Setting.set (KeyPath.ofText "tools") (ofToml origin (.table es)) root) =
      ((last? name es).map (ofToml origin)).or (find? ["tools", name] root) := by
  have hplain : ∀ v, (name, v) ∈ ofTomlEntries origin es → v.isTable = false := by
    intro v hv
    rw [ofTomlEntries_eq_map, List.mem_map] at hv
    obtain ⟨⟨k, w⟩, hw, heq⟩ := hv
    obtain ⟨rfl, rfl⟩ := Prod.mk.inj heq
    exact plain w hw
  have hold : ((find? ["tools"] root).getD nothing).entries.lookup name =
      find? ["tools", name] root := by
    show _ = find? (["tools"] ++ [name]) root
    rw [find?_append]
    cases find? ["tools"] root with
    | none => rfl
    | some v => exact (find?_single name v).symm
  rw [← hold, ← last?_ofTomlEntries, ← lookup_mergeEntries hplain]
  exact (find?_set_tools root [name] _).trans (find?_single name _)

namespace Carries

variable {root : Setting} {f : Leaf → Option LeafValue}

/-- What is laid over paths that lead to no setting changes no setting. -/
theorem set_unknown (h : Carries root f) {p : KeyPath}
    (hp : ∀ l : Leaf, parts p l.path = true) (v : Setting) : Carries (Setting.set p v root) f := by
  refine ⟨tools_update h.tools (hp .primary) _, ?_, ?_⟩
  · intro l hl
    show find? l.path (update _ p root) = none
    rw [find?_update_of_parts _ (hp l)]
    exact h.absent l hl
  · intro l x hx
    show ∃ w, find? l.path (update _ p root) = some w ∧ _
    rw [find?_update_of_parts _ (hp l)]
    exact h.present l x hx

/-- What is laid over the path of a setting changes this setting and no other. -/
theorem set_leaf (h : Carries root f) {l : Leaf} {v : Setting} {x : LeafValue}
    (reads : l.Reads v x) (hv : v.isTable = false) :
    Carries (Setting.set (keys l.path) v root)
      fun l' => (if l' = l then some x else none).or (f l') := by
  have hfound : find? l.path (Setting.set (keys l.path) v root) = some v := by
    have hset := find?_update (fun old => merge old v) l.path [] root
    rw [List.append_nil, merge_of_not_isTable hv] at hset
    exact hset
  have hother : ∀ l', l' ≠ l →
      find? l'.path (Setting.set (keys l.path) v root) = find? l'.path root :=
    fun l' hne => find?_update_of_parts _ (parts_of_ne (Ne.symm hne)) root
  have hparts : ∃ name, parts (keys l.path) ["tools", name] = true := by
    cases l <;> exact ⟨"", rfl⟩
  obtain ⟨name, hname⟩ := hparts
  refine ⟨tools_update h.tools hname _, ?_, ?_⟩
  · intro l' hl'
    by_cases hne : l' = l
    · rw [if_pos hne] at hl'
      cases hl'
    · rw [if_neg hne, Option.none_or] at hl'
      rw [hother l' hne]
      exact h.absent l' hl'
  · intro l' x' hx'
    by_cases hne : l' = l
    · rw [if_pos hne, Option.some_or, Option.some.injEq] at hx'
      subst hne hx'
      exact ⟨v, hfound, reads⟩
    · rw [if_neg hne, Option.none_or] at hx'
      rw [hother l' hne]
      exact h.present l' x' hx'

/-- A table of tools changes the tools in it and leaves the others as they were. -/
theorem set_tools (h : Carries root f) {es : TomlTable}
    (kind : ∀ (l : Leaf) name w, l.path = ["tools", name] → (name, w) ∈ es →
      (l.kind.ofToml? w).isSome) (origin : Option String) :
    Carries (Setting.set (KeyPath.ofText "tools") (ofToml origin (.table es)) root)
      fun l => (Toml.leaf? [("tools", .table es)] l).or (f l) := by
  have hplain : ∀ l name, Leaf.path l = ["tools", name] →
      ∀ w, (name, w) ∈ es → (ofToml origin w).isTable = false := by
    intro l name hl w hw
    obtain ⟨x, hx⟩ := Option.isSome_iff_exists.mp (kind l name w hl hw)
    exact (reads_ofToml hx origin).2
  refine ⟨?_, ?_, ?_⟩
  · intro v hv
    have htable := find?_set_tools root [] (ofToml origin (.table es))
    rw [List.append_nil, hv] at htable
    obtain rfl := Option.some.inj htable
    rfl
  · intro l hl
    rw [Option.or_eq_none_iff] at hl
    obtain ⟨k, hk, hne⟩ | ⟨name, hname⟩ := path_cases l
    · rw [hk, find?_set_tools_of_ne hne, ← hk]
      exact h.absent l hl.2
    · rw [hname, find?_set_toolTable root origin (hplain l name hname), ← hname]
      cases hlast : last? name es with
      | none => exact h.absent l hl.2
      | some w =>
        have hw := kind l name w hname (last?_mem hlast)
        rw [leaf?_tool hname (kind l name · hname), hlast, Option.bind_some] at hl
        rw [hl.1] at hw
        cases hw
  · intro l x hx
    obtain ⟨k, hk, hne⟩ | ⟨name, hname⟩ := path_cases l
    · rw [leaf?_tools_of_ne hk hne, Option.none_or] at hx
      rw [hk, find?_set_tools_of_ne hne, ← hk]
      exact h.present l x hx
    · rw [hname, find?_set_toolTable root origin (hplain l name hname), ← hname]
      rw [leaf?_tool hname (kind l name · hname)] at hx
      cases hlast : last? name es with
      | none =>
        rw [hlast] at hx
        exact h.present l x hx
      | some w =>
        obtain ⟨y, hy⟩ := Option.isSome_iff_exists.mp (kind l name w hname (last?_mem hlast))
        rw [hlast, Option.bind_some, hy, Option.some_or, Option.some.injEq] at hx
        subst hx
        exact ⟨ofToml origin w, rfl, (reads_ofToml hy origin).1⟩

/-- What an entry of a document does to the settings. -/
theorem set_document (h : Carries root f) {k : String} {v : Toml} (fits : Toml.Fits k v)
    (origin : Option String) :
    Carries (Setting.set (KeyPath.ofText k) (ofToml origin v) root)
      fun l => (Toml.leaf? [(k, v)] l).or (f l) := by
  cases fits with
  | @leaf l _ _ path kind =>
    obtain ⟨x, hx⟩ := Option.isSome_iff_exists.mp kind
    obtain ⟨hreads, hplain⟩ := reads_ofToml hx origin
    have hkey : KeyPath.ofText k = keys l.path := by
      rw [← ofText_text, Leaf.text, path]
      rfl
    simp only [leaf?_entry path hx]
    rw [hkey]
    exact h.set_leaf hreads hplain
  | tools kind => exact h.set_tools kind origin
  | unknown unknown =>
    simp only [leaf?_unknown unknown, Option.none_or]
    exact h.set_unknown unknown _

/-- What a whole document does to them. -/
theorem document (h : Carries root f) {document : TomlTable}
    (fits : ∀ e ∈ document, Toml.Fits e.1 e.2) (origin : Option String) :
    Carries (Layer.onto (ofTomlEntries origin document) root)
      fun l => (Toml.leaf? document l).or (f l) := by
  induction document generalizing root f with
  | nil =>
    simp only [leaf?_nil, Option.none_or]
    exact h
  | cons e document ih =>
    have hstep := h.set_document (fits e List.mem_cons_self) origin
    have hrest := ih hstep fun e' he' => fits e' (List.mem_cons_of_mem _ he')
    simp only [leaf?_cons e document, Option.or_assoc]
    exact hrest

theorem environmentLayer_cons (e : String × String) (environment : List (String × String)) :
    environmentLayer (e :: environment) =
      ((settingKey? e.1).map fun key =>
        (key, Setting.leaf (some "the environment") (scalarOfText e.2))).toList ++
          environmentLayer environment := by
  cases hkey : settingKey? e.1 <;> simp [environmentLayer, hkey]

/-- What a variable does to the settings. -/
theorem set_variable (h : Carries root f) {name value : String} (fits : VariableFits name value)
    {key : String} (hkey : settingKey? name = some key) (origin : Option String) :
    Carries (Setting.set (KeyPath.ofText key) (.leaf origin (scalarOfText value)) root)
      fun l => (assigned? [(name, value)] l).or (f l) := by
  obtain ⟨l, rfl, kind⟩ | unknown := fits key hkey
  · obtain ⟨x, hx⟩ := Option.isSome_iff_exists.mp kind
    have hvalue : ∀ l', assigned? [(name, value)] l' = if l' = l then some x else none := by
      intro l'
      rw [assigned?_single hkey]
      by_cases hne : l' = l
      · subst hne
        rw [if_pos rfl, if_pos rfl, hx]
      · have htext : l.text ≠ l'.text := fun heq => hne (text_injective heq).symm
        rw [if_neg htext, if_neg hne]
    simp only [hvalue]
    rw [ofText_text]
    exact h.set_leaf (reads_variable hx origin) rfl
  · have hnone : ∀ l, assigned? [(name, value)] l = none := by
      intro l
      have htext : key ≠ l.text := by
        rintro rfl
        have hparts := unknown l
        rw [ofText_text, parts_keys_self] at hparts
        cases hparts
      rw [assigned?_single hkey, if_neg htext]
    simp only [hnone, Option.none_or]
    exact h.set_unknown unknown _

/-- What a whole environment does to them. -/
theorem environment (h : Carries root f) {environment : List (String × String)}
    (fits : ∀ e ∈ environment, VariableFits e.1 e.2) :
    Carries ((environmentLayer environment).onto root)
      fun l => (assigned? environment l).or (f l) := by
  induction environment generalizing root f with
  | nil => exact h
  | cons e environment ih =>
    have hcons : ∀ l, assigned? (e :: environment) l =
        (assigned? environment l).or (assigned? [e] l) := by
      intro l
      rw [assigned?, assigned?, assigned?, getLast?_filterMap_cons,
        getLast?_filterMap_cons _ e []]
      rfl
    have hrest : ∀ e' ∈ environment, VariableFits e'.1 e'.2 :=
      fun e' he' => fits e' (List.mem_cons_of_mem _ he')
    simp only [hcons, Option.or_assoc]
    rw [environmentLayer_cons]
    cases hkey : settingKey? e.1 with
    | none =>
      have hnone : ∀ l, assigned? [e] l = none := fun l => by simp [assigned?, hkey]
      simp only [hnone, Option.none_or]
      exact ih h hrest
    | some key =>
      have hstep := h.set_variable (fits e List.mem_cons_self) hkey (some "the environment")
      exact ih hstep hrest

end Carries

/-! ## Loading -/

namespace Settings

/-- The document that settings are read from: that of the first name if this is a file, or else
that of the second one, or else one with nothing in it. -/
inductive Consulted (fs : FileSystem) (cwd : Place) (dir : Path) : TomlTable → Prop
  | main {id mode : Nat} {bytes : List UInt8} {document : TomlTable}
      (found : fs.entry? cwd (dir.child "generate-index.toml") = some (.file id mode bytes))
      (valid : Toml.read? (Text.Utf8.decode bytes) = some document) : Consulted fs cwd dir document
  | hidden {id mode : Nat} {bytes : List UInt8} {document : TomlTable}
      (noMain : fs.isFile cwd (dir.child "generate-index.toml") = false)
      (found : fs.entry? cwd (dir.child ".generate-index.toml") = some (.file id mode bytes))
      (valid : Toml.read? (Text.Utf8.decode bytes) = some document) : Consulted fs cwd dir document
  | neither (noMain : fs.isFile cwd (dir.child "generate-index.toml") = false)
      (noHidden : fs.isFile cwd (dir.child ".generate-index.toml") = false) :
      Consulted fs cwd dir []

variable {fs : FileSystem} {cwd : Place} {dir : Path} {document : TomlTable}
  {environment : List (String × String)}

/-- A path that leads to a file can be read. -/
theorem file_of_entry {path : Path} {id mode : Nat} {bytes : List UInt8}
    (h : fs.entry? cwd path = some (.file id mode bytes)) :
    fs.isFile cwd path = true ∧ fs.read cwd path = .ok bytes := by
  refine ⟨by rw [FileSystem.isFile, h]; rfl, ?_⟩
  unfold FileSystem.entry? at h
  unfold FileSystem.read
  split at h
  · next heq =>
    obtain rfl := Option.some.inj h
    rw [heq]
  · cases h

/-- Settings are read from the document and the environment, and checked. -/
theorem Consulted.load_eq (h : Consulted fs cwd dir document)
    (environment : List (String × String)) : ∃ origin, load fs cwd dir environment =
      checked (ofSetting ((environmentLayer environment).onto
        (Layer.onto (ofTomlEntries origin document) Setting.empty))) := by
  cases h with
  | main found valid =>
    obtain ⟨isFile, read⟩ := file_of_entry found
    have hfile : file? fs cwd dir = some (dir.child "generate-index.toml") := by
      simp [file?, fileNames, isFile]
    exact ⟨some (originOf cwd _), by simp only [load, hfile, fileLayer, read, valid]; rfl⟩
  | hidden noMain found valid =>
    obtain ⟨isFile, read⟩ := file_of_entry found
    have hfile : file? fs cwd dir = some (dir.child ".generate-index.toml") := by
      simp [file?, fileNames, noMain, isFile]
    exact ⟨some (originOf cwd _), by simp only [load, hfile, fileLayer, read, valid]; rfl⟩
  | neither noMain noHidden =>
    have hfile : file? fs cwd dir = none := by
      simp [file?, fileNames, noMain, noHidden]
    exact ⟨none, by simp only [load, hfile]; rfl⟩

/-- The settings that the document and the environment hold, which are loaded if their default
analyzer is one. -/
theorem Consulted.load_fits (h : Consulted fs cwd dir document)
    (fits : ∀ e ∈ document, Toml.Fits e.1 e.2)
    (given : ∀ e ∈ environment, VariableFits e.1 e.2) :
    ∃ s : Settings, load fs cwd dir environment = s.defaultKind.map (fun _ => s) ∧
      ∀ l, s.leaf l =
        ((assigned? environment l).or (Toml.leaf? document l)).getD (({} : Settings).leaf l) := by
  obtain ⟨origin, hload⟩ := h.load_eq environment
  have hcarries := (Carries.empty.document fits origin).environment given
  obtain ⟨s, hs, hleaf⟩ := hcarries.ofSetting
  refine ⟨s, ?_, fun l => ?_⟩
  · rw [hload, hs, checked_ok]
  · rw [hleaf, Option.or_none]

/-- Each setting by itself has the value of the environment, or else that of the document, or else
its default. They are loaded unless the default analyzer that comes of it is none. -/
theorem load_layered (consulted : Consulted fs cwd dir document)
    (fits : ∀ e ∈ document, Toml.Fits e.1 e.2)
    (given : ∀ e ∈ environment, VariableFits e.1 e.2) :
    ∃ s : Settings,
      (∀ l, s.leaf l = ((assigned? environment l).or (Toml.leaf? document l)).getD
        (({} : Settings).leaf l)) ∧
      load fs cwd dir environment =
        match Analyzer.ofName? (Analyzer.normalized s.defaultAnalyzer) with
        | some _ => .ok s
        | none => .error (.noSuchAnalyzer (Analyzer.normalized s.defaultAnalyzer)) := by
  obtain ⟨s, hload, hleaf⟩ := consulted.load_fits fits given
  refine ⟨s, hleaf, ?_⟩
  rw [hload, defaultKind]
  cases Analyzer.ofName? (Analyzer.normalized s.defaultAnalyzer) with
  | some kind => rfl
  | none => rfl

/-- A directory with a settings file, and a hidden one that gives a limit. -/
def settingsFiles (main : String) : FileSystem :=
  ⟨[(["work"], .dir dirMode),
    (["work", "generate-index.toml"], .file 0 fileMode (Text.Utf8.encode main)),
    (["work", ".generate-index.toml"], .file 1 fileMode (Text.Utf8.encode "timeout_secs=7"))], 2⟩

theorem settingsFiles_entry (main : String) :
    FileSystem.entry? (settingsFiles main) [] ((Path.mk "/work").child "generate-index.toml") =
      some (.file 0 fileMode (Text.Utf8.encode main)) := by
  have hsteps : FileSystem.steps ((Path.mk "/work").child "generate-index.toml") =
      ["work", "generate-index.toml"] := by decide +kernel
  have horigin : FileSystem.origin [] ((Path.mk "/work").child "generate-index.toml") = [] := by
    decide +kernel
  have hempty : ((Path.mk "/work").child "generate-index.toml").text.isEmpty = false := by
    decide +kernel
  have hmax : ¬ FileSystem.maxPath <
      ((Path.mk "/work").child "generate-index.toml").text.utf8ByteSize := by decide +kernel
  unfold FileSystem.entry? FileSystem.stat FileSystem.lookup
  rw [hsteps, horigin, hempty, if_neg hmax]
  rfl

/-- A text in tables that hold nothing else. -/
def lone : List String → String → Toml
  | [], s => .text s
  | k :: ks, s => .table [(k, lone ks s)]

/-- The text of a value that holds nothing else, and the keys that lead to it. -/
def lone? : Toml → Option (List String × String)
  | .text s => some ([], s)
  | .table [(k, v)] => (lone? v).map fun found => (k :: found.1, found.2)
  | _ => none

theorem eq_lone {v : Toml} {ks : List String} {s : String} (h : lone? v = some (ks, s)) :
    v = lone ks s := by
  induction ks generalizing v with
  | nil =>
    unfold lone? at h
    split at h
    · cases h
      rfl
    · obtain ⟨found, -, hfound⟩ := Option.map_eq_some_iff.mp h
      cases hfound
    · cases h
  | cons k ks ih =>
    unfold lone? at h
    split at h
    · cases h
    · obtain ⟨found, hfound, heq⟩ := Option.map_eq_some_iff.mp h
      cases heq
      rw [lone, ih hfound]
    · cases h

/-- A document in which a single text has been found holds nothing else. -/
theorem read?_lone {text k s : String} (ks : List String)
    (h : ((Toml.read? text).bind fun es => lone? (.table es)) = some (k :: ks, s)) :
    Toml.read? text = some [(k, lone ks s)] := by
  obtain ⟨document, hread, hlone⟩ := Option.bind_eq_some_iff.mp h
  rw [hread, Toml.table.inj (eq_lone hlone)]

/-- A document with one of the tools. -/
def partialTools : String := "[tools]\nexporter='mine'"

theorem read?_partialTools :
    Toml.read? partialTools = some [("tools", .table [("exporter", .text "mine")])] :=
  read?_lone ["exporter"] (by decide +kernel)

/-- One tool from the file, one from the environment, and the others by default; the hidden file
does not count. -/
theorem partial_tools_layered : ∃ s : Settings,
    load (settingsFiles partialTools) [] ⟨"/work"⟩
      [("GENERATE_INDEX_TOOLS__SECONDARY", "other"), ("PATH", "/bin")] = .ok s ∧
    s.tools = ⟨"verus-analyzer", "other", "mine", "scip"⟩ ∧ s.timeoutSecs = 0 := by
  have hvalid : Toml.read? (Text.Utf8.decode (Text.Utf8.encode partialTools)) =
      some [("tools", .table [("exporter", .text "mine")])] := by
    rw [Text.Utf8.decode_encode]
    exact read?_partialTools
  have hfits : ∀ e ∈ ([("tools", .table [("exporter", .text "mine")])] : TomlTable),
      Toml.Fits e.1 e.2 := by
    intro e he
    obtain rfl := List.mem_singleton.mp he
    refine .tools fun l name w hl hw => ?_
    obtain ⟨rfl, rfl⟩ := Prod.mk.inj (List.mem_singleton.mp hw)
    cases l <;> first | rfl | simp [Leaf.path] at hl
  have hvariables : ∀ e ∈ [("GENERATE_INDEX_TOOLS__SECONDARY", "other"), ("PATH", "/bin")],
      VariableFits e.1 e.2 := by
    intro e he key hkey
    simp only [List.mem_cons, List.not_mem_nil, or_false] at he
    obtain rfl | rfl := he
    · have hname : "GENERATE_INDEX_TOOLS__SECONDARY" = Leaf.variableName .secondary := by
        decide +kernel
      rw [hname, settingKey?_variableName, Option.some.injEq] at hkey
      exact .inl ⟨.secondary, hkey.symm, by decide +kernel⟩
    · have hnone : settingKey? "PATH" = none := by decide
      rw [hnone] at hkey
      cases hkey
  obtain ⟨s, hleaf, hload⟩ := load_layered (.main (settingsFiles_entry _) hvalid) hfits hvariables
  have hvalue : ∀ l x, ((assigned? [("GENERATE_INDEX_TOOLS__SECONDARY", "other"),
      ("PATH", "/bin")] l).or (Toml.leaf? [("tools", .table [("exporter", .text "mine")])] l)).getD
        (({} : Settings).leaf l) = x → s.leaf l = x := fun l x hx => (hleaf l).trans hx
  have hprimary := hvalue .primary (.text "verus-analyzer") (by decide +kernel)
  have hsecondary := hvalue .secondary (.text "other") (by decide +kernel)
  have hexporter := hvalue .exporter (.text "mine") (by decide +kernel)
  have hsubcommand := hvalue .analyzerSubcommand (.text "scip") (by decide +kernel)
  have htimeout := hvalue .timeoutSecs (.count 0) (by decide +kernel)
  have hdefault := hvalue .defaultAnalyzer (.text "primary") (by decide +kernel)
  simp only [leaf, LeafValue.text.injEq, LeafValue.count.injEq] at *
  have hname : Analyzer.ofName? (Analyzer.normalized s.defaultAnalyzer) = some .primary := by
    rw [hdefault]
    decide +kernel
  rw [hname] at hload
  exact ⟨s, hload, by rw [← hprimary, ← hsecondary, ← hexporter, ← hsubcommand], htimeout⟩

/-- A document with a single key that is none of the settings. -/
def quotedPath : String := "'tools.exporter'='other'"

theorem read?_quotedPath : Toml.read? quotedPath = some [("tools.exporter", .text "other")] :=
  read?_lone [] (by decide +kernel)

/-- A key with a dot in it is not known, and yet gives a tool another name. -/
theorem quoted_path_is_read :
    Consulted (settingsFiles quotedPath) [] ⟨"/work"⟩ [("tools.exporter", .text "other")] ∧
    (∀ l : Leaf, l.path.head? ≠ some "tools.exporter") ∧
    (load (settingsFiles quotedPath) [] ⟨"/work"⟩ []).toOption =
      some { ({} : Settings) with tools := { exporter := "other" } } := by
  refine ⟨.main (settingsFiles_entry _) ?_, ?_, ?_⟩
  · rw [Text.Utf8.decode_encode]
    exact read?_quotedPath
  · intro l
    cases l <;> decide
  · decide +kernel

end Settings

end CodeIndex

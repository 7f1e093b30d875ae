import CodeIndex.Settings.Load

/-!
# Single settings

Settings are a table with a table of tools in it. A leaf is one value of these, which stands at a
path of keys. What is laid over settings at a path leaves alone what stands at paths that part from
it.

* `Leaf`, `Settings.leaf` : the settings one by one, and their values;
* `Setting.find?` : the value at a path of keys;
* `Setting.find?_update`, `Setting.find?_update_of_parts` : what an update does to it;
* `Setting.lookup_mergeEntries` : what a table that is laid over another does to its keys;
* `Leaf.Reads` : a value is read as that of a leaf;
* `Carries`, `Carries.ofSetting` : a table that has the values of leaves is read as the settings
  with these values.
-/

namespace CodeIndex

/-! ## Leaves -/

/-- The kinds of values that settings have. -/
inductive LeafKind
  | text
  | count
  | texts
  deriving Repr, DecidableEq

/-- One setting. -/
inductive Leaf
  | defaultAnalyzer
  | indexExtension
  | jsonFileName
  | tempPrefix
  | timeoutSecs
  | probeTimeoutSecs
  | copyExclude
  | primary
  | secondary
  | exporter
  | analyzerSubcommand
  deriving Repr, DecidableEq

/-- The value of one setting. -/
inductive LeafValue
  | text (s : String)
  | count (n : Nat)
  | texts (l : List String)
  deriving Repr, DecidableEq

namespace Leaf

/-- The keys that lead to a setting. -/
def path : Leaf → List String
  | defaultAnalyzer => ["default_analyzer"]
  | indexExtension => ["index_extension"]
  | jsonFileName => ["json_file_name"]
  | tempPrefix => ["temp_prefix"]
  | timeoutSecs => ["timeout_secs"]
  | probeTimeoutSecs => ["probe_timeout_secs"]
  | copyExclude => ["copy_exclude"]
  | primary => ["tools", "primary"]
  | secondary => ["tools", "secondary"]
  | exporter => ["tools", "exporter"]
  | analyzerSubcommand => ["tools", "analyzer_subcommand"]

/-- What kind of value a setting has. -/
def kind : Leaf → LeafKind
  | timeoutSecs | probeTimeoutSecs => .count
  | copyExclude => .texts
  | _ => .text

/-- The keys with dots between them. -/
def text (l : Leaf) : String := Text.joinWith "." l.path

end Leaf

/-- The value of one of the settings. -/
def Settings.leaf (s : Settings) : Leaf → LeafValue
  | .defaultAnalyzer => .text s.defaultAnalyzer
  | .indexExtension => .text s.indexExtension
  | .jsonFileName => .text s.jsonFileName
  | .tempPrefix => .text s.tempPrefix
  | .timeoutSecs => .count s.timeoutSecs
  | .probeTimeoutSecs => .count s.probeTimeoutSecs
  | .copyExclude => .texts s.copyExclude
  | .primary => .text s.tools.primary
  | .secondary => .text s.tools.secondary
  | .exporter => .text s.tools.exporter
  | .analyzerSubcommand => .text s.tools.analyzerSubcommand

/-- Settings are no more than their leaves. -/
theorem Settings.eq_of_leaf {s t : Settings} (h : ∀ l, s.leaf l = t.leaf l) : s = t := by
  obtain ⟨a, b, c, d, e, f, g, ⟨p, q, r, u⟩⟩ := s
  obtain ⟨a', b', c', d', e', f', g', ⟨p', q', r', u'⟩⟩ := t
  have h1 := h .defaultAnalyzer
  have h2 := h .indexExtension
  have h3 := h .jsonFileName
  have h4 := h .tempPrefix
  have h5 := h .timeoutSecs
  have h6 := h .probeTimeoutSecs
  have h7 := h .copyExclude
  have h8 := h .primary
  have h9 := h .secondary
  have h10 := h .exporter
  have h11 := h .analyzerSubcommand
  simp only [leaf, LeafValue.text.injEq, LeafValue.count.injEq, LeafValue.texts.injEq] at *
  simp [*]

namespace Setting

/-! ## Values at paths -/

/-- The value at a path of keys. -/
def find? : List String → Setting → Option Setting
  | [], v => some v
  | k :: ks, v => (v.entries.lookup k).bind (find? ks)

/-- A path parts from keys if it goes another way at one of them. -/
def parts : KeyPath → List String → Bool
  | .key k :: p, n :: ns => k != n || parts p ns
  | _, _ => false

/-- The path of keys. -/
def keys (ns : List String) : KeyPath := ns.map .key

theorem lookup_alter (f : Setting → Setting) (key k : String) (es : List (String × Setting)) :
    (alter f key es).lookup k =
      if k = key then some (f ((es.lookup key).getD nothing)) else es.lookup k := by
  induction es with
  | nil =>
    by_cases h : k = key
    · simp [alter, h]
    · simp [alter, h, List.lookup_cons, beq_false_of_ne h]
  | cons e rest ih =>
    obtain ⟨k', v⟩ := e
    by_cases hkey : k' = key
    · by_cases h : k = key
      · simp [alter, hkey, h]
      · simp [alter, hkey, h, List.lookup_cons, beq_false_of_ne h]
    · rw [alter, if_neg hkey]
      by_cases h : k = k'
      · subst h
        simp [hkey]
      · have hne : key ≠ k' := fun hk => hkey hk.symm
        simp [List.lookup_cons, beq_false_of_ne h, beq_false_of_ne hne, ih]

theorem find?_nothing {ns : List String} (h : ns ≠ []) : find? ns nothing = none := by
  cases ns with
  | nil => exact absurd rfl h
  | cons n ns => rfl

theorem find?_append (ns ms : List String) (v : Setting) :
    find? (ns ++ ms) v = (find? ns v).bind (find? ms) := by
  induction ns generalizing v with
  | nil => rfl
  | cons n ns ih =>
    show (v.entries.lookup n).bind (find? (ns ++ ms)) =
      ((v.entries.lookup n).bind (find? ns)).bind (find? ms)
    rw [Option.bind_assoc]
    congr 1
    funext w
    exact ih w

theorem find?_single (n : String) (v : Setting) : find? [n] v = v.entries.lookup n := by
  show (v.entries.lookup n).bind some = _
  exact Option.bind_fun_some _

/-- What is at a path after an update there, and below. -/
theorem find?_update (f : Setting → Setting) (ns ms : List String) (v : Setting) :
    find? (ns ++ ms) (update f (keys ns) v) = find? ms (f ((find? ns v).getD nothing)) := by
  induction ns generalizing v with
  | nil => rfl
  | cons n ns ih =>
    show ((alter (update f (keys ns)) n v.entries).lookup n).bind (find? (ns ++ ms)) = _
    rw [lookup_alter, if_pos rfl]
    show find? (ns ++ ms) (update f (keys ns) _) = _
    rw [ih]
    congr 2
    show _ = ((v.entries.lookup n).bind (find? ns)).getD nothing
    cases v.entries.lookup n with
    | some w => rfl
    | none =>
      cases ns with
      | nil => rfl
      | cons m ns => rfl

/-- An update leaves alone what is at paths that part from it. -/
theorem find?_update_of_parts (f : Setting → Setting) {p : KeyPath} {ns : List String}
    (h : parts p ns = true) (v : Setting) : find? ns (update f p v) = find? ns v := by
  induction p generalizing ns v with
  | nil => simp [parts] at h
  | cons step p ih =>
    cases step with
    | index i => simp [parts] at h
    | key k =>
      cases ns with
      | nil => simp [parts] at h
      | cons n ns =>
        simp only [parts, Bool.or_eq_true, bne_iff_ne] at h
        show ((alter (update f p) k v.entries).lookup n).bind (find? ns) =
          (v.entries.lookup n).bind (find? ns)
        rw [lookup_alter]
        by_cases hn : n = k
        · have hrest : parts p ns = true := h.resolve_left (fun hk => hk hn.symm)
          have hne : ns ≠ [] := by
            intro hnil
            rw [hnil] at hrest
            cases p with
            | nil => simp [parts] at hrest
            | cons s p => cases s <;> simp [parts] at hrest
          rw [if_pos hn, hn]
          show find? ns (update f p _) = _
          rw [ih hrest]
          cases v.entries.lookup k with
          | some w => rfl
          | none => exact find?_nothing hne
        · rw [if_neg hn]

/-! ## Tables over tables -/

/-- The last value of a key. -/
def last? {α : Type} (k : String) (es : List (String × α)) : Option α :=
  (es.filterMap fun e => if e.1 = k then some e.2 else none).getLast?

/-- Whether a value is a table. -/
def isTable : Setting → Bool
  | .table _ _ => true
  | _ => false

/-- What is no table replaces what it is laid over. -/
theorem merge_of_not_isTable {v : Setting} (h : v.isTable = false) (base : Setting) :
    merge base v = v := by
  cases v with
  | leaf o x => rfl
  | array o items => rfl
  | table o es => cases h

theorem last?_cons {α : Type} (k : String) (e : String × α) (es : List (String × α)) :
    last? k (e :: es) = (last? k es).or (if e.1 = k then some e.2 else none) := by
  unfold last?
  by_cases h : e.1 = k
  · rw [List.filterMap_cons_some (b := e.2) (by simp [h]), if_pos h, List.getLast?_cons]
    cases (es.filterMap fun e => if e.1 = k then some e.2 else none).getLast? <;> rfl
  · rw [List.filterMap_cons_none (by simp [h]), if_neg h, Option.or_none]

/-- In a table laid over another the value of a key is the last one given, or else the old one. -/
theorem lookup_mergeEntries {k : String} {es : List (String × Setting)}
    (h : ∀ v, (k, v) ∈ es → v.isTable = false) (base : List (String × Setting)) :
    (mergeEntries base es).lookup k = (last? k es).or (base.lookup k) := by
  induction es generalizing base with
  | nil => rfl
  | cons e rest ih =>
    obtain ⟨k', v⟩ := e
    have hrest : ∀ v, (k, v) ∈ rest → v.isTable = false :=
      fun v hv => h v (List.mem_cons_of_mem _ hv)
    show (mergeEntries (alter (fun old => merge old v) k' base) rest).lookup k = _
    rw [ih hrest, lookup_alter, last?_cons, Option.or_assoc]
    by_cases hk : k = k'
    · subst hk
      have hv : v.isTable = false := h v List.mem_cons_self
      simp [merge_of_not_isTable hv]
    · have hk' : ¬ k' = k := fun hne => hk hne.symm
      simp [hk, hk']

end Setting

/-! ## Reading leaves -/

open Setting

/-- The value is read as that of a setting, whatever it is called in messages. -/
def Leaf.Reads (l : Leaf) (v : Setting) (x : LeafValue) : Prop :=
  match l.kind, x with
  | .text, .text s => ∀ key, v.toText key = .ok s
  | .count, .count n => ∀ key, v.toCount key = .ok n
  | .texts, .texts xs => ∀ key, v.toTexts key = .ok xs
  | _, _ => False

/-- A table has these values at the paths of the settings, and none at the others. -/
structure Carries (root : Setting) (f : Leaf → Option LeafValue) : Prop where
  tools : ∀ v, root.find? ["tools"] = some v → v.isTable = true
  absent : ∀ l, f l = none → root.find? l.path = none
  present : ∀ l x, f l = some x → ∃ v, root.find? l.path = some v ∧ l.Reads v x

namespace Carries

variable {root : Setting} {f : Leaf → Option LeafValue}

theorem empty : Carries Setting.empty fun _ => none := by
  refine ⟨?_, ?_, ?_⟩
  · intro v hv
    cases hv
  · intro l _
    cases l <;> rfl
  · intro l x hx
    cases hx

/-- The field of a leaf has the value of the leaf, or its default. -/
theorem field {α : Type} {es : List (String × Setting)} {l : Leaf} {key : String}
    {read : Setting → Except LoadError α} {wrap : α → LeafValue} (h : Carries root f)
    (hfind : root.find? l.path = es.lookup key) (default : α)
    (hread : ∀ v x, l.Reads v x → ∃ a, read v = .ok a ∧ wrap a = x) :
    ∃ a, Setting.field es key default read = .ok a ∧ wrap a = (f l).getD (wrap default) := by
  unfold Setting.field
  rw [← hfind]
  cases hf : f l with
  | none =>
    rw [h.absent l hf]
    exact ⟨default, rfl, rfl⟩
  | some x =>
    obtain ⟨v, hv, hreads⟩ := h.present l x hf
    obtain ⟨a, ha, hx⟩ := hread v x hreads
    rw [hv]
    exact ⟨a, ha, hx⟩

theorem reads_text {l : Leaf} (hl : l.kind = .text) (key : String) (v : Setting) (x : LeafValue)
    (h : l.Reads v x) : ∃ s, v.toText key = .ok s ∧ LeafValue.text s = x := by
  unfold Leaf.Reads at h
  rw [hl] at h
  cases x with
  | text s => exact ⟨s, h key, rfl⟩
  | count n => cases h
  | texts xs => cases h

theorem reads_count {l : Leaf} (hl : l.kind = .count) (key : String) (v : Setting) (x : LeafValue)
    (h : l.Reads v x) : ∃ n, v.toCount key = .ok n ∧ LeafValue.count n = x := by
  unfold Leaf.Reads at h
  rw [hl] at h
  cases x with
  | count n => exact ⟨n, h key, rfl⟩
  | text s => cases h
  | texts xs => cases h

theorem reads_texts {l : Leaf} (hl : l.kind = .texts) (key : String) (v : Setting) (x : LeafValue)
    (h : l.Reads v x) : ∃ xs, v.toTexts key = .ok xs ∧ LeafValue.texts xs = x := by
  unfold Leaf.Reads at h
  rw [hl] at h
  cases x with
  | texts xs => exact ⟨xs, h key, rfl⟩
  | text s => cases h
  | count n => cases h

theorem find?_tool (root : Setting) (name : String) : root.find? ["tools", name] =
    (root.entries.lookup "tools").bind fun v => v.entries.lookup name := by
  show (root.entries.lookup "tools").bind (find? [name]) = _
  congr 1
  funext v
  exact find?_single name v

/-- Without a table of tools, none of these has a value. -/
theorem tool_eq_none (h : Carries root f) (htools : root.entries.lookup "tools" = none) {l : Leaf}
    {name : String} (hl : l.path = ["tools", name]) : f l = none := by
  cases hf : f l with
  | none => rfl
  | some x =>
    obtain ⟨v, hv, -⟩ := h.present l x hf
    rw [hl, find?_tool, htools] at hv
    cases hv

/-- The names of the tools are read from the table of tools, or take their defaults. -/
theorem toolNames (h : Carries root f) : ∃ names,
    Setting.field root.entries "tools" ({} : ToolNames) toToolNames = .ok names ∧
      LeafValue.text names.primary = (f .primary).getD (({} : Settings).leaf .primary) ∧
      LeafValue.text names.secondary = (f .secondary).getD (({} : Settings).leaf .secondary) ∧
      LeafValue.text names.exporter = (f .exporter).getD (({} : Settings).leaf .exporter) ∧
      LeafValue.text names.analyzerSubcommand =
        (f .analyzerSubcommand).getD (({} : Settings).leaf .analyzerSubcommand) := by
  cases htools : root.entries.lookup "tools" with
  | none =>
    refine ⟨{}, ?_, ?_, ?_, ?_, ?_⟩
    · simp [Setting.field, htools]
    · rw [h.tool_eq_none htools (l := .primary) rfl]; rfl
    · rw [h.tool_eq_none htools (l := .secondary) rfl]; rfl
    · rw [h.tool_eq_none htools (l := .exporter) rfl]; rfl
    · rw [h.tool_eq_none htools (l := .analyzerSubcommand) rfl]; rfl
  | some v =>
    have htable : v.isTable = true := h.tools v (by simp [find?, htools])
    cases v with
    | leaf o x => cases htable
    | array o items => cases htable
    | table o es =>
      have hes : ∀ name, root.find? ["tools", name] = es.lookup name := by
        intro name
        rw [find?_tool, htools]
        rfl
      obtain ⟨p, hp, hpx⟩ := h.field (l := .primary) (hes _) ({} : ToolNames).primary
        (reads_text rfl "tools.primary")
      obtain ⟨q, hq, hqx⟩ := h.field (l := .secondary) (hes _) ({} : ToolNames).secondary
        (reads_text rfl "tools.secondary")
      obtain ⟨r, hr, hrx⟩ := h.field (l := .exporter) (hes _) ({} : ToolNames).exporter
        (reads_text rfl "tools.exporter")
      obtain ⟨t, ht, htx⟩ := h.field (l := .analyzerSubcommand) (hes _)
        ({} : ToolNames).analyzerSubcommand (reads_text rfl "tools.analyzer_subcommand")
      refine ⟨⟨p, q, r, t⟩, ?_, hpx, hqx, hrx, htx⟩
      simp only [Setting.field, htools] at hp hq hr ht ⊢
      simp only [toToolNames, Setting.field, hp, hq, hr, ht]
      rfl

/-- A table with these values is read as the settings that have them, with defaults for the
others. -/
theorem ofSetting (h : Carries root f) : ∃ s : Settings, Settings.ofSetting root = .ok s ∧
    ∀ l, s.leaf l = (f l).getD (({} : Settings).leaf l) := by
  have hfind : ∀ key, root.find? [key] = root.entries.lookup key := fun key => find?_single key root
  obtain ⟨a, ha, hax⟩ := h.field (l := .defaultAnalyzer) (hfind _) ({} : Settings).defaultAnalyzer
    (reads_text rfl "default_analyzer")
  obtain ⟨b, hb, hbx⟩ := h.field (l := .indexExtension) (hfind _) ({} : Settings).indexExtension
    (reads_text rfl "index_extension")
  obtain ⟨c, hc, hcx⟩ := h.field (l := .jsonFileName) (hfind _) ({} : Settings).jsonFileName
    (reads_text rfl "json_file_name")
  obtain ⟨d, hd, hdx⟩ := h.field (l := .tempPrefix) (hfind _) ({} : Settings).tempPrefix
    (reads_text rfl "temp_prefix")
  obtain ⟨m, hm, hmx⟩ := h.field (l := .timeoutSecs) (hfind _) ({} : Settings).timeoutSecs
    (reads_count rfl "timeout_secs")
  obtain ⟨n, hn, hnx⟩ := h.field (l := .probeTimeoutSecs) (hfind _)
    ({} : Settings).probeTimeoutSecs (reads_count rfl "probe_timeout_secs")
  obtain ⟨e, he, hex⟩ := h.field (l := .copyExclude) (hfind _) ({} : Settings).copyExclude
    (reads_texts rfl "copy_exclude")
  obtain ⟨t, ht, hp, hq, hr, hu⟩ := h.toolNames
  refine ⟨⟨a, b, c, d, m, n, e, t⟩, ?_, ?_⟩
  · simp only [Settings.ofSetting, ha, hb, hc, hd, hm, hn, he, ht]
    rfl
  · intro l
    cases l
    · exact hax
    · exact hbx
    · exact hcx
    · exact hdx
    · exact hmx
    · exact hnx
    · exact hex
    · exact hp
    · exact hq
    · exact hr
    · exact hu

end Carries

end CodeIndex

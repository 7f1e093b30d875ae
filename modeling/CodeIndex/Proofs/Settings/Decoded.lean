import CodeIndex.Proofs.Effect
import CodeIndex.Proofs.Settings.Layered

/-!
# Settings that have been read

Settings are read from a table leaf by leaf. So a text at the path of one setting is the value of
this setting, and has no part in whether the others can be read.

* `Leaf.read` : a value as that of a leaf;
* `ofSetting_eq_ok_iff`, `toToolNames_eq_ok_iff` : when a table is read as settings;
* `leaf_of_ofSetting` : the value of a setting that is found in the table;
* `AlikeBut`, `alikeBut_update` : tables that are alike but for what is at a path;
* `ofSetting_of_alikeBut` : a text in place of what is at the path of a setting.
-/

namespace CodeIndex

open Setting

/-- The same settings with another text. -/
def Settings.withText (s : Settings) (l : Leaf) (t : String) : Settings :=
  match l with
  | .defaultAnalyzer => { s with defaultAnalyzer := t }
  | .indexExtension => { s with indexExtension := t }
  | .jsonFileName => { s with jsonFileName := t }
  | .tempPrefix => { s with tempPrefix := t }
  | .primary => { s with tools.primary := t }
  | .secondary => { s with tools.secondary := t }
  | .exporter => { s with tools.exporter := t }
  | .analyzerSubcommand => { s with tools.analyzerSubcommand := t }
  | .timeoutSecs | .probeTimeoutSecs | .copyExclude => s

theorem Settings.leaf_withText (s : Settings) {l : Leaf} (hl : l.kind = .text) (t : String)
    (l' : Leaf) : (s.withText l t).leaf l' = if l' = l then .text t else s.leaf l' := by
  cases l <;> first | (cases l' <;> rfl) | cases hl

/-- A value as that of a setting. -/
def Leaf.read (l : Leaf) (key : String) (v : Setting) : Except LoadError LeafValue :=
  match l.kind with
  | .text => (v.toText key).map .text
  | .count => (v.toCount key).map .count
  | .texts => (v.toTexts key).map .texts

namespace Setting

/-- Reading a field and wrapping what is read. -/
theorem field_map_eq_ok {α β : Type} {wrap : α → β} (hwrap : ∀ a b, wrap a = wrap b → a = b)
    {es : List (String × Setting)} {key : String} {default a : α}
    {read : Setting → Except LoadError α} :
    field es key (wrap default) (fun v => (read v).map wrap) = .ok (wrap a) ↔
      field es key default read = .ok a := by
  have hmap : ∀ x : Except LoadError α, x.map wrap = .ok (wrap a) ↔ x = .ok a := by
    intro x
    cases x with
    | error e => exact ⟨fun h => (by cases h), fun h => (by cases h)⟩
    | ok b =>
      constructor
      · intro h
        rw [hwrap b a (Except.ok.inj h)]
      · intro h
        rw [Except.ok.inj h]
        rfl
  unfold field
  cases es.lookup key with
  | some v => exact hmap (read v)
  | none => exact hmap (.ok default)

theorem text_inj (s t : String) (h : LeafValue.text s = LeafValue.text t) : s = t :=
  LeafValue.text.inj h

theorem count_inj (m n : Nat) (h : LeafValue.count m = LeafValue.count n) : m = n :=
  LeafValue.count.inj h

theorem texts_inj (xs ys : List String) (h : LeafValue.texts xs = LeafValue.texts ys) : xs = ys :=
  LeafValue.texts.inj h

theorem tool_cases {l : Leaf} {name : String} (h : l.path = ["tools", name]) :
    (l = .primary ∧ name = "primary") ∨ (l = .secondary ∧ name = "secondary") ∨
      (l = .exporter ∧ name = "exporter") ∨
      (l = .analyzerSubcommand ∧ name = "analyzer_subcommand") := by
  cases l <;> simp [Leaf.path] at h ⊢ <;> exact h.symm

/-- The settings of which these are the tools. -/
def ofTools (tools : ToolNames) : Settings := { tools }

/-- A table of tools is read name by name. -/
theorem toToolNames_eq_ok_iff {o : Option String} {es : List (String × Setting)}
    {tools : ToolNames} : toToolNames (.table o es) = .ok tools ↔
      ∀ l name, Leaf.path l = ["tools", name] →
        field es name (({} : Settings).leaf l) (l.read ("tools." ++ name)) =
          .ok ((ofTools tools).leaf l) := by
  constructor
  · intro h l name hl
    simp only [toToolNames, bind_eq_ok_iff] at h
    obtain ⟨p, hp, q, hq, r, hr, u, hu, heq⟩ := h
    obtain rfl := Except.ok.inj heq
    obtain ⟨rfl, rfl⟩ | ⟨rfl, rfl⟩ | ⟨rfl, rfl⟩ | ⟨rfl, rfl⟩ := tool_cases hl
    · exact (field_map_eq_ok text_inj).mpr hp
    · exact (field_map_eq_ok text_inj).mpr hq
    · exact (field_map_eq_ok text_inj).mpr hr
    · exact (field_map_eq_ok text_inj).mpr hu
  · intro h
    have hp := (field_map_eq_ok text_inj).mp (h .primary _ rfl)
    have hq := (field_map_eq_ok text_inj).mp (h .secondary _ rfl)
    have hr := (field_map_eq_ok text_inj).mp (h .exporter _ rfl)
    have hu := (field_map_eq_ok text_inj).mp (h .analyzerSubcommand _ rfl)
    simp only [toToolNames, bind_eq_ok_iff]
    exact ⟨_, hp, _, hq, _, hr, _, hu, rfl⟩

/-- Settings are read leaf by leaf, and then the tools. -/
theorem ofSetting_eq_ok_iff {root : Setting} {s : Settings} :
    Settings.ofSetting root = .ok s ↔
      (∀ l k, Leaf.path l = [k] →
        field root.entries k (({} : Settings).leaf l) (l.read k) = .ok (s.leaf l)) ∧
      field root.entries "tools" ({} : ToolNames) toToolNames = .ok s.tools := by
  constructor
  · intro h
    simp only [Settings.ofSetting, bind_eq_ok_iff] at h
    obtain ⟨a, ha, b, hb, c, hc, d, hd, m, hm, n, hn, e, he, t, ht, heq⟩ := h
    obtain rfl := Except.ok.inj heq
    refine ⟨fun l k hl => ?_, ht⟩
    cases l <;> cases hl
    · exact (field_map_eq_ok text_inj).mpr ha
    · exact (field_map_eq_ok text_inj).mpr hb
    · exact (field_map_eq_ok text_inj).mpr hc
    · exact (field_map_eq_ok text_inj).mpr hd
    · exact (field_map_eq_ok count_inj).mpr hm
    · exact (field_map_eq_ok count_inj).mpr hn
    · exact (field_map_eq_ok texts_inj).mpr he
  · rintro ⟨h, ht⟩
    have ha := (field_map_eq_ok text_inj).mp (h .defaultAnalyzer _ rfl)
    have hb := (field_map_eq_ok text_inj).mp (h .indexExtension _ rfl)
    have hc := (field_map_eq_ok text_inj).mp (h .jsonFileName _ rfl)
    have hd := (field_map_eq_ok text_inj).mp (h .tempPrefix _ rfl)
    have hm := (field_map_eq_ok count_inj).mp (h .timeoutSecs _ rfl)
    have hn := (field_map_eq_ok count_inj).mp (h .probeTimeoutSecs _ rfl)
    have he := (field_map_eq_ok texts_inj).mp (h .copyExclude _ rfl)
    simp only [Settings.ofSetting, bind_eq_ok_iff]
    exact ⟨_, ha, _, hb, _, hc, _, hd, _, hm, _, hn, _, he, _, ht, rfl⟩

/-! ## A text in the table -/

theorem read_text {l : Leaf} (hl : l.kind = .text) {v : Setting} {t : String}
    (hv : ∀ key, v.toText key = .ok t) (key : String) : l.read key v = .ok (.text t) := by
  unfold Leaf.read
  rw [hl]
  dsimp only
  rw [hv]
  rfl

theorem leaf_ofTools {l : Leaf} {name : String} (h : l.path = ["tools", name]) (s : Settings) :
    (ofTools s.tools).leaf l = s.leaf l := by
  obtain ⟨rfl, -⟩ | ⟨rfl, -⟩ | ⟨rfl, -⟩ | ⟨rfl, -⟩ := tool_cases h <;> rfl

/-- What has a value for a name is a table. -/
theorem eq_table_of_lookup {w v : Setting} {name : String} (h : w.entries.lookup name = some v) :
    ∃ o es, w = .table o es := by
  cases w with
  | leaf o x => cases h
  | array o items => cases h
  | table o es => exact ⟨o, es, rfl⟩

/-- A text that is found in the table is the value of its setting. -/
theorem leaf_of_ofSetting {root v : Setting} {s : Settings} {l : Leaf} {t : String}
    (h : Settings.ofSetting root = .ok s) (hl : l.kind = .text)
    (hfind : root.find? l.path = some v) (hv : ∀ key, v.toText key = .ok t) :
    s.leaf l = .text t := by
  obtain ⟨htop, htools⟩ := ofSetting_eq_ok_iff.mp h
  obtain ⟨k, hk, -⟩ | ⟨name, hname⟩ := path_cases l
  · have hfield := htop l k hk
    rw [hk, find?_single] at hfind
    rw [field, hfind] at hfield
    exact Except.ok.inj (hfield.symm.trans (read_text hl hv k))
  · rw [hname, Carries.find?_tool, Option.bind_eq_some_iff] at hfind
    obtain ⟨w, hw, hlookup⟩ := hfind
    obtain ⟨o, es, rfl⟩ := eq_table_of_lookup hlookup
    rw [field, hw] at htools
    have hfield := toToolNames_eq_ok_iff.mp htools l name hname
    have hes : es.lookup name = some v := hlookup
    rw [field, hes, leaf_ofTools hname] at hfield
    exact Except.ok.inj (hfield.symm.trans (read_text hl hv _))

/-! ## Tables that are alike -/

/-- Two values are alike but for what is at a path. -/
def AlikeBut : List String → Setting → Setting → Prop
  | [], _, _ => True
  | n :: ns, v, w => (∀ k, k ≠ n → v.entries.lookup k = w.entries.lookup k) ∧
      AlikeBut ns ((v.entries.lookup n).getD nothing) ((w.entries.lookup n).getD nothing)

/-- What is laid over a value at a path changes nothing else. -/
theorem alikeBut_set (ns : List String) (x v : Setting) : AlikeBut ns v (set (keys ns) x v) := by
  unfold set
  induction ns generalizing v with
  | nil => trivial
  | cons n ns ih =>
    have hlookup : ∀ k, (update (fun old => merge old x) (keys (n :: ns)) v).entries.lookup k =
        if k = n then
          some (update (fun old => merge old x) (keys ns) ((v.entries.lookup n).getD nothing))
        else v.entries.lookup k := fun k => lookup_alter _ n k v.entries
    refine ⟨fun k hk => ?_, ?_⟩
    · rw [hlookup, if_neg hk]
    · rw [hlookup, if_pos rfl]
      exact ih _

/-- Values that are alike but for a path remain so after an update that leads elsewhere. -/
theorem alikeBut_update {ns : List String} {v w : Setting} (h : AlikeBut ns v w)
    (f : Setting → Setting) {p : KeyPath} (hp : parts p ns = true) :
    AlikeBut ns (update f p v) (update f p w) := by
  induction p generalizing ns v w with
  | nil => cases hp
  | cons step p ih =>
    cases step with
    | index i => cases hp
    | key k =>
      cases ns with
      | nil => trivial
      | cons n ns =>
        obtain ⟨hothers, hbelow⟩ := h
        have hlookup : ∀ u k', (update f (.key k :: p) u).entries.lookup k' =
            if k' = k then some (update f p ((u.entries.lookup k).getD nothing))
            else u.entries.lookup k' := fun u k' => lookup_alter _ k k' u.entries
        refine ⟨fun k' hk' => ?_, ?_⟩
        · rw [hlookup, hlookup]
          by_cases heq : k' = k
          · rw [if_pos heq, if_pos heq, hothers k (heq ▸ hk')]
          · rw [if_neg heq, if_neg heq, hothers k' hk']
        · rw [hlookup, hlookup]
          by_cases heq : n = k
          · subst heq
            have hrest : parts p ns = true := by simpa [parts] using hp
            rw [if_pos rfl, if_pos rfl]
            exact ih hbelow hrest
          · rw [if_neg heq, if_neg heq]
            exact hbelow

theorem field_congr {α : Type} {es es' : List (String × Setting)} {key : String}
    (h : es.lookup key = es'.lookup key) (default : α) (read : Setting → Except LoadError α) :
    field es key default read = field es' key default read := by
  unfold field
  rw [h]

theorem path_injective {l l' : Leaf} (h : l.path = l'.path) : l = l' :=
  text_injective (congrArg (Text.joinWith ".") h)

/-- If settings have been read, there are names of tools in what stands for the tools. -/
theorem exists_tools {root : Setting} {tools : ToolNames}
    (h : field root.entries "tools" ({} : ToolNames) toToolNames = .ok tools) :
    ∃ names, ∀ l name, Leaf.path l = ["tools", name] →
      field ((root.entries.lookup "tools").getD nothing).entries name (({} : Settings).leaf l)
        (l.read ("tools." ++ name)) = .ok ((ofTools names).leaf l) := by
  unfold field at h
  cases hlookup : root.entries.lookup "tools" with
  | none =>
    exact ⟨{}, fun l name hl => rfl⟩
  | some w =>
    rw [hlookup] at h
    cases w with
    | leaf o x => cases h
    | array o items => exact ⟨{}, fun l name hl => rfl⟩
    | table o es => exact ⟨tools, toToolNames_eq_ok_iff.mp h⟩

section Replaced

variable {root root' v : Setting} {s : Settings} {l : Leaf} {t : String}

/-- A text takes the place of a setting that is no tool. -/
theorem ofSetting_of_alikeBut_top {k : String} (h : Settings.ofSetting root = .ok s)
    (hk : l.path = [k]) (hne : k ≠ "tools") (alike : AlikeBut l.path root root')
    (hl : l.kind = .text) (hfind : root'.find? l.path = some v)
    (hv : ∀ key, v.toText key = .ok t) : Settings.ofSetting root' = .ok (s.withText l t) := by
  obtain ⟨htop, htools⟩ := ofSetting_eq_ok_iff.mp h
  rw [hk] at alike
  rw [hk, find?_single] at hfind
  apply ofSetting_eq_ok_iff.mpr
  constructor
  · intro l' k' hk'
    rw [Settings.leaf_withText s hl]
    by_cases hsame : l' = l
    · subst hsame
      obtain rfl : k' = k := (List.cons.inj (hk'.symm.trans hk)).1
      rw [if_pos rfl, field, hfind]
      exact read_text hl hv _
    · have hkey : k' ≠ k := by
        rintro rfl
        exact hsame (path_injective (hk'.trans hk.symm))
      rw [if_neg hsame, ← field_congr (alike.1 k' hkey)]
      exact htop l' k' hk'
  · have hkept : (s.withText l t).tools = s.tools := by
      cases l <;> first | rfl | cases hk
    rw [hkept, ← field_congr (alike.1 "tools" hne.symm)]
    exact htools

/-- A text takes the place of the name of a tool. If the tools are an array, this is replaced. -/
theorem ofSetting_of_alikeBut_tool {name : String} (h : Settings.ofSetting root = .ok s)
    (hname : l.path = ["tools", name]) (alike : AlikeBut l.path root root')
    (hl : l.kind = .text) (hfind : root'.find? l.path = some v)
    (hv : ∀ key, v.toText key = .ok t) : ∃ names : ToolNames,
      Settings.ofSetting root' = .ok (({ s with tools := names } : Settings).withText l t) := by
  obtain ⟨htop, htools⟩ := ofSetting_eq_ok_iff.mp h
  obtain ⟨names, hnames⟩ := exists_tools htools
  rw [hname] at alike
  obtain ⟨hothers, hbelow, -⟩ := alike
  rw [hname, Carries.find?_tool, Option.bind_eq_some_iff] at hfind
  obtain ⟨w, hw, hlookup⟩ := hfind
  obtain ⟨o, es, rfl⟩ := eq_table_of_lookup hlookup
  rw [hw] at hbelow
  refine ⟨names, ?_⟩
  apply ofSetting_eq_ok_iff.mpr
  constructor
  · intro l' k' hk'
    have hkey : k' ≠ "tools" := by
      rintro rfl
      cases l' <;> simp [Leaf.path] at hk'
    have hsame : l' ≠ l := by
      rintro rfl
      rw [hname] at hk'
      cases hk'
    have hkept : ({ s with tools := names } : Settings).leaf l' = s.leaf l' := by
      cases l' <;> first | rfl | cases hk'
    rw [Settings.leaf_withText _ hl, if_neg hsame, hkept, ← field_congr (hothers k' hkey)]
    exact htop l' k' hk'
  · rw [field, hw]
    apply toToolNames_eq_ok_iff.mpr
    intro l' name' hname'
    rw [leaf_ofTools hname', Settings.leaf_withText _ hl]
    by_cases hsame : l' = l
    · subst hsame
      obtain rfl : name' = name := by
        rw [hname'] at hname
        exact (List.cons.inj (List.cons.inj hname).2).1
      have hes : es.lookup name' = some v := hlookup
      rw [if_pos rfl, field, hes]
      exact read_text hl hv _
    · have hkey : name' ≠ name := by
        rintro rfl
        exact hsame (path_injective (hname'.trans hname.symm))
      have hkept : ({ s with tools := names } : Settings).leaf l' = (ofTools names).leaf l' :=
        (leaf_ofTools hname' { s with tools := names }).symm
      rw [if_neg hsame, hkept]
      exact (field_congr (hbelow name' hkey) _ _).symm.trans (hnames l' name' hname')

/-- Settings can be read as well when a text takes the place of what is at the path of one, with
the same default analyzer if it is not this. -/
theorem ofSetting_of_alikeBut (h : Settings.ofSetting root = .ok s)
    (alike : AlikeBut l.path root root') (hl : l.kind = .text) (hne : l ≠ .defaultAnalyzer)
    (hfind : root'.find? l.path = some v) (hv : ∀ key, v.toText key = .ok t) :
    ∃ s', Settings.ofSetting root' = .ok s' ∧ s'.defaultAnalyzer = s.defaultAnalyzer := by
  have hkept : ∀ s' : Settings, (s'.withText l t).defaultAnalyzer = s'.defaultAnalyzer := by
    intro s'
    cases l <;> first | rfl | exact absurd rfl hne
  obtain ⟨k, hk, htools⟩ | ⟨name, hname⟩ := path_cases l
  · exact ⟨_, ofSetting_of_alikeBut_top h hk htools alike hl hfind hv, hkept s⟩
  · obtain ⟨names, hs'⟩ := ofSetting_of_alikeBut_tool h hname alike hl hfind hv
    exact ⟨_, hs', hkept { s with tools := names }⟩

end Replaced

end Setting

end CodeIndex

import CodeIndex.Proofs.Settings.Decoded
import CodeIndex.Proofs.Settings.Printed
import CodeIndex.Proofs.Text.Integer

/-!
# Texts in variables

A text in a settings file is the value of its setting as it is. The value of a variable is first
taken for a truth value or a number if it can be, and a setting that is a text gets this written out
again. So a text arrives as it is exactly if it is none of these, or one that is written out the same
way.

* `variableText` : the text that a variable gives a setting;
* `Verbatim`, `variableText_eq_iff` : the texts that arrive as they are;
* `LeavesAlone` : variables that do not reach a setting;
* `Settings.text_of_variable`, `Settings.loads_with_variable` : settings with one more variable;
* `Settings.variable_verbatim_iff` : texts in the settings file and in variables;
* `Settings.numeral_rewritten` : a text that does not arrive as it is.
-/

namespace CodeIndex

open Setting

/-! ## Texts that are written out again -/

/-- A truth value as a text. -/
def truthText (b : Bool) : String := if b then "true" else "false"

/-- The text that the value of a variable gives a setting. -/
def variableText (value : String) : String :=
  match scalarOfText value with
  | .missing => ""
  | .boolean b => truthText b
  | .integer n => Text.intText n
  | .float x => x.text
  | .text s => s

/-- A text arrives as it is: a truth value in lower case, an integer without signs and zeros that it
does not need, and a float as the shortest decimal without an exponent that is read as it. A text
that is none of these is not restricted. -/
structure Verbatim (value : String) : Prop where
  truth : ∀ b, Text.lowerAscii value = truthText b → value = truthText b
  integer : ∀ n, Text.readSigned value = .ok n → Text.isPlainInteger value.toList = true
  float : ∀ e x, Text.readSigned value = .error e → Binary64.read? value = some x → x.text = value

theorem scalarOfText_of_truth {value : String} {b : Bool}
    (h : Text.lowerAscii value = truthText b) : scalarOfText value = .boolean b := by
  unfold scalarOfText
  rw [h]
  cases b <;> rfl

theorem verbatim_truthText (b : Bool) : Verbatim (truthText b) := by
  refine ⟨fun b' h => ?_, fun n h => ?_, fun e x _ h => ?_⟩
  · cases b <;> cases b' <;> first | rfl | exact absurd h (by decide)
  · have hnone : ∀ b, (Text.readSigned (truthText b)).isOk = false := by decide
    have hfails := hnone b
    rw [h] at hfails
    cases hfails
  · have hnone : ∀ b, Binary64.read? (truthText b) = none := by decide +kernel
    rw [hnone b] at h
    cases h

theorem variableText_eq_iff (value : String) : variableText value = value ↔ Verbatim value := by
  by_cases hword : ∃ b, Text.lowerAscii value = truthText b
  · obtain ⟨b, hb⟩ := hword
    have htext : variableText value = truthText b := by
      rw [variableText, scalarOfText_of_truth hb]
    rw [htext]
    exact ⟨fun h => h ▸ verbatim_truthText b, fun h => (h.truth b hb).symm⟩
  · have hnever : ∀ b, Text.lowerAscii value = truthText b → value = truthText b :=
      fun b hb => absurd ⟨b, hb⟩ hword
    have htrue : Text.lowerAscii value ≠ "true" := fun h => hword ⟨true, h⟩
    have hfalse : Text.lowerAscii value ≠ "false" := fun h => hword ⟨false, h⟩
    unfold variableText scalarOfText
    simp only [if_neg htrue, if_neg hfalse]
    cases hsigned : Text.readSigned value with
    | ok n =>
      dsimp only
      rw [Text.intText_eq_iff hsigned]
      refine ⟨fun h => ⟨hnever, fun m _ => h, fun e x he => ?_⟩, fun h => h.integer n hsigned⟩
      rw [hsigned] at he
      cases he
    | error e =>
      have hinteger : ∀ n, Text.readSigned value = .ok n →
          Text.isPlainInteger value.toList = true := by
        intro n hn
        rw [hsigned] at hn
        cases hn
      cases hfloat : Binary64.read? value with
      | some x =>
        refine ⟨fun h => ⟨hnever, hinteger, fun e y _ hy => ?_⟩,
          fun h => h.float e x hsigned hfloat⟩
        rw [hfloat] at hy
        obtain rfl := Option.some.inj hy
        exact h
      | none =>
        refine ⟨fun _ => ⟨hnever, hinteger, fun e y _ hy => ?_⟩, fun _ => rfl⟩
        rw [hfloat] at hy
        cases hy

/-- The value of a variable is read as a text wherever a text is wanted. -/
theorem toText_variable (origin : Option String) (value key : String) :
    (Setting.leaf origin (scalarOfText value)).toText key = .ok (variableText value) := by
  unfold variableText
  cases hscalar : scalarOfText value with
  | missing =>
    unfold scalarOfText at hscalar
    dsimp only at hscalar
    repeat' split at hscalar
    all_goals cases hscalar
  | boolean b => rfl
  | integer n => rfl
  | float x => rfl
  | text s => rfl

/-! ## One more variable -/

/-- Each of these variables names a setting whose path parts from that of the given one, or none. -/
def LeavesAlone (l : Leaf) (environment : List (String × String)) : Prop :=
  ∀ e ∈ environment, ∀ key, settingKey? e.1 = some key → parts (KeyPath.ofText key) l.path = true

section Environment

variable {l : Leaf} {environment before after : List (String × String)} {name value : String}

/-- Variables one by one: each that names a setting is laid over what there is. -/
theorem onto_cons (e : String × String) (environment : List (String × String)) (root : Setting) :
    (environmentLayer (e :: environment)).onto root =
      (environmentLayer environment).onto ((settingKey? e.1).elim root fun key =>
        Setting.set (KeyPath.ofText key) (.leaf (some "the environment") (scalarOfText e.2)) root)
    := by
  rw [Carries.environmentLayer_cons]
  cases settingKey? e.1 <;> rfl

theorem onto_append (before after : List (String × String)) (root : Setting) :
    (environmentLayer (before ++ after)).onto root =
      (environmentLayer after).onto ((environmentLayer before).onto root) := by
  unfold environmentLayer Layer.onto
  rw [List.filterMap_append, List.foldl_append]

/-- Variables that leave a setting alone do not change what is at its path. -/
theorem find?_onto (alone : LeavesAlone l environment) (root : Setting) :
    ((environmentLayer environment).onto root).find? l.path = root.find? l.path := by
  induction environment generalizing root with
  | nil => rfl
  | cons e environment ih =>
    rw [onto_cons, ih fun e' he' => alone e' (List.mem_cons_of_mem _ he')]
    cases hkey : settingKey? e.1 with
    | none => rfl
    | some key => exact find?_update_of_parts _ (alone e List.mem_cons_self key hkey) root

/-- They keep tables alike that are alike but for this path. -/
theorem alikeBut_onto (alone : LeavesAlone l environment) {v w : Setting}
    (h : AlikeBut l.path v w) : AlikeBut l.path ((environmentLayer environment).onto v)
      ((environmentLayer environment).onto w) := by
  induction environment generalizing v w with
  | nil => exact h
  | cons e environment ih =>
    rw [onto_cons, onto_cons]
    apply ih fun e' he' => alone e' (List.mem_cons_of_mem _ he')
    cases hkey : settingKey? e.1 with
    | none => exact h
    | some key => exact alikeBut_update h _ (alone e List.mem_cons_self key hkey)

/-- With one more variable, its value is found at the path of the setting that it names, and all
else is as without. -/
theorem with_variable (before : List (String × String)) (hname : settingKey? name = some l.text)
    (alone : LeavesAlone l after) (value : String) (root : Setting) :
    ((environmentLayer (before ++ (name, value) :: after)).onto root).find? l.path =
        some (.leaf (some "the environment") (scalarOfText value)) ∧
      AlikeBut l.path ((environmentLayer (before ++ after)).onto root)
        ((environmentLayer (before ++ (name, value) :: after)).onto root) := by
  rw [onto_append, onto_append, onto_cons]
  dsimp only
  rw [hname, Option.elim, ofText_text]
  refine ⟨?_, alikeBut_onto alone (alikeBut_set l.path _ _)⟩
  rw [find?_onto alone]
  have hset := find?_update
    (fun old => merge old (.leaf (some "the environment") (scalarOfText value))) l.path []
    ((environmentLayer before).onto root)
  rw [List.append_nil] at hset
  exact hset

end Environment

namespace Settings

variable {l : Leaf} {fs : FileSystem} {cwd : Place} {dir : Path} {s : Settings}
  {before after : List (String × String)} {name value : String}

/-- A setting that a variable names has the text of the variable. -/
theorem text_of_variable (hl : l.kind = .text) (hname : settingKey? name = some l.text)
    (alone : LeavesAlone l after)
    (h : load fs cwd dir (before ++ (name, value) :: after) = .ok s) :
    s.leaf l = .text (variableText value) := by
  obtain ⟨e, hfails⟩ | ⟨root, hload⟩ := load_onto fs cwd dir
  · rw [hfails] at h
    cases h
  · rw [hload, checked_eq_ok_iff] at h
    have hfind := (with_variable before hname alone value root).1
    exact leaf_of_ofSetting h.1 hl hfind (toText_variable _ value)

/-- Settings that are loaded without a variable for a text are loaded with it. -/
theorem loads_with_variable (hl : l.kind = .text) (hne : l ≠ .defaultAnalyzer)
    (hname : settingKey? name = some l.text) (alone : LeavesAlone l after) (value : String)
    (h : load fs cwd dir (before ++ after) = .ok s) :
    ∃ s', load fs cwd dir (before ++ (name, value) :: after) = .ok s' := by
  obtain ⟨e, hfails⟩ | ⟨root, hload⟩ := load_onto fs cwd dir
  · rw [hfails] at h
    cases h
  · rw [hload, checked_eq_ok_iff] at h
    obtain ⟨hread, kind, hkind⟩ := h
    obtain ⟨hfind, alike⟩ := with_variable before hname alone value root
    obtain ⟨s', hs', hsame⟩ :=
      ofSetting_of_alikeBut hread alike hl hne hfind (toText_variable _ value)
    refine ⟨s', ?_⟩
    rw [hload, checked_eq_ok_iff]
    refine ⟨hs', kind, ?_⟩
    rw [← hkind]
    unfold defaultKind
    rw [hsame]

/-- In a settings file, the text of a setting is its value as it is. -/
theorem text_of_document (hl : l.kind = .text) (hne : l ≠ .defaultAnalyzer)
    (named : (Analyzer.ofName? (Analyzer.normalized s.defaultAnalyzer)).isSome)
    (timeout : s.timeoutSecs ≤ Text.maxSigned) (probe : s.probeTimeoutSecs ≤ Text.maxSigned)
    {id mode : Nat} (found : fs.entry? cwd (dir.child "generate-index.toml") =
      some (.file id mode (Text.Utf8.encode (s.withText l value).document))) :
    ∃ s', load fs cwd dir [] = .ok s' ∧ s'.leaf l = .text value := by
  have hkept : (s.withText l value).defaultAnalyzer = s.defaultAnalyzer ∧
      (s.withText l value).timeoutSecs = s.timeoutSecs ∧
      (s.withText l value).probeTimeoutSecs = s.probeTimeoutSecs := by
    cases l <;> first | exact ⟨rfl, rfl, rfl⟩ | exact absurd rfl hne
  refine ⟨s.withText l value, load_document ?_ found ?_ ?_, ?_⟩
  · rw [hkept.1]
    exact named
  · rw [hkept.2.1]
    exact timeout
  · rw [hkept.2.2]
    exact probe
  · rw [leaf_withText s hl, if_pos rfl]

/-- A text in the settings file is the value of its setting, whatever it is. In a variable it is the
value exactly if it arrives as it is. Either way the settings are loaded, if they are without. -/
theorem variable_verbatim_iff (hl : l.kind = .text) (hne : l ≠ .defaultAnalyzer) (value : String)
    (fs : FileSystem) (cwd : Place) (dir : Path) :
    (∀ (s : Settings) (id mode : Nat),
      (Analyzer.ofName? (Analyzer.normalized s.defaultAnalyzer)).isSome →
      s.timeoutSecs ≤ Text.maxSigned → s.probeTimeoutSecs ≤ Text.maxSigned →
      fs.entry? cwd (dir.child "generate-index.toml") =
        some (.file id mode (Text.Utf8.encode (s.withText l value).document)) →
      ∃ s', load fs cwd dir [] = .ok s' ∧ s'.leaf l = .text value) ∧
    ∀ name before after, settingKey? name = some l.text → LeavesAlone l after →
      (∀ s, load fs cwd dir (before ++ (name, value) :: after) = .ok s →
        (s.leaf l = .text value ↔ Verbatim value)) ∧
      ∀ s, load fs cwd dir (before ++ after) = .ok s →
        ∃ s', load fs cwd dir (before ++ (name, value) :: after) = .ok s' := by
  refine ⟨fun s id mode named timeout probe found =>
    text_of_document hl hne named timeout probe found, fun name before after hname alone =>
    ⟨fun s hs => ?_, fun s hs => loads_with_variable hl hne hname alone value hs⟩⟩
  rw [text_of_variable hl hname alone hs, LeafValue.text.injEq, variableText_eq_iff]

/-- A number that is written out in the same way arrives as it is. -/
theorem plain_number_verbatim :
    Leaf.kind .exporter = .text ∧ Leaf.exporter ≠ .defaultAnalyzer ∧
    settingKey? "GENERATE_INDEX_TOOLS__EXPORTER" = some (Leaf.text .exporter) ∧
    LeavesAlone .exporter [("PATH", "/bin")] ∧
    ∃ s, load FileSystem.empty [] ⟨"/work"⟩ ([] ++ ("GENERATE_INDEX_TOOLS__EXPORTER", "-0.5") ::
      [("PATH", "/bin")]) = .ok s ∧ s.leaf .exporter = .text "-0.5" := by
  have hname : settingKey? "GENERATE_INDEX_TOOLS__EXPORTER" = some (Leaf.text .exporter) := by
    decide +kernel
  have halone : LeavesAlone .exporter [("PATH", "/bin")] := by
    intro e he key hkey
    obtain rfl := List.mem_singleton.mp he
    have hnone : settingKey? "PATH" = none := by decide
    rw [hnone] at hkey
    cases hkey
  have hplain : Verbatim "-0.5" := (variableText_eq_iff _).mp (by decide +kernel)
  obtain ⟨hvalue, hloads⟩ := (variable_verbatim_iff (l := .exporter) rfl (by decide) "-0.5"
    FileSystem.empty [] ⟨"/work"⟩).2 "GENERATE_INDEX_TOOLS__EXPORTER" [] [("PATH", "/bin")]
      hname halone
  have hwithout : (load FileSystem.empty [] ⟨"/work"⟩ [("PATH", "/bin")]).isOk = true := by
    decide +kernel
  cases hload : load FileSystem.empty [] ⟨"/work"⟩ [("PATH", "/bin")] with
  | error e =>
    rw [hload] at hwithout
    cases hwithout
  | ok s₀ =>
    obtain ⟨s, hs⟩ := hloads s₀ hload
    exact ⟨rfl, by decide, hname, halone, s, hs, (hvalue s hs).mpr hplain⟩

/-- A numeral with zeros before it is the value of a setting in a settings file, and loses them in a
variable. -/
theorem numeral_rewritten :
    (load (settingsFiles "temp_prefix='007'") [] ⟨"/work"⟩ []).toOption =
      some { tempPrefix := "007" } ∧
    (load FileSystem.empty [] ⟨"/work"⟩ [(Leaf.variableName .tempPrefix, "007")]).toOption =
      some { tempPrefix := "7" } := by
  refine ⟨?_, ?_⟩
  · decide +kernel
  · decide +kernel

end Settings

end CodeIndex

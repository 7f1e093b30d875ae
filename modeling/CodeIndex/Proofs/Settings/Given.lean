import CodeIndex.Proofs.Settings.Leaf
import CodeIndex.Proofs.Text.Integer

/-!
# What sources give the settings

A document and an environment each give some of the settings a value, others they leave open.

* `LeafKind.ofToml?`, `LeafKind.ofVariable?` : the values that documents and variables can give;
* `Toml.leaf?`, `assigned?` : the value that a document, or the environment, gives a setting;
* `Toml.Fits`, `VariableFits` : entries and variables whose values are of the right kinds;
* `reads_ofToml`, `reads_variable` : such values are read as what they give;
* `leaf?_cons`, `last?_ofTomlEntries` : documents entry by entry.
-/

namespace CodeIndex

open Setting

/-! ## What a document gives -/

/-- The text of a value that is a text. -/
def Toml.text? : Toml → Option String
  | .text s => some s
  | _ => none

/-- The value of a setting that a document can give. -/
def LeafKind.ofToml? : LeafKind → Toml → Option LeafValue
  | .text, .text s => some (.text s)
  | .count, .integer n => if 0 ≤ n then some (.count n.toNat) else none
  | .texts, .array items => (items.mapM Toml.text?).map .texts
  | _, _ => none

namespace Toml

/-- The values at a path of keys. A table has one at most. -/
def valuesAt : List String → Toml → List Toml
  | [], v => [v]
  | k :: ks, .table es => es.flatMap fun e => if e.1 = k then valuesAt ks e.2 else []
  | _ :: _, _ => []

/-- The value that a document gives a setting, of several the last one. -/
def leaf? (document : TomlTable) (l : Leaf) : Option LeafValue :=
  ((valuesAt l.path (.table document)).filterMap l.kind.ofToml?).getLast?

/-- An entry of a document gives a setting a value of its kind, or the tools, or else its key is
not known. A key is a path, and one that leads to or through a setting is none that is not known. -/
inductive Fits : String → Toml → Prop
  | leaf {l : Leaf} {k : String} {v : Toml} (path : l.path = [k])
      (kind : (l.kind.ofToml? v).isSome) : Fits k v
  | tools {es : TomlTable} (kind : ∀ l name w, Leaf.path l = ["tools", name] → (name, w) ∈ es →
      (l.kind.ofToml? w).isSome) : Fits "tools" (.table es)
  | unknown {k : String} {v : Toml} (parts : ∀ l : Leaf, parts (KeyPath.ofText k) l.path = true) :
      Fits k v

end Toml

theorem ofTomlEntries_eq_map (origin : Option String) (es : TomlTable) :
    ofTomlEntries origin es = es.map fun e => (e.1, ofToml origin e.2) := by
  induction es with
  | nil => rfl
  | cons e es ih =>
    obtain ⟨k, v⟩ := e
    rw [ofTomlEntries, ih]
    rfl

theorem textsFrom_ofTomlItems (origin : Option String) (key : String) {items : List Toml}
    {xs : List String} (h : items.mapM Toml.text? = some xs) (i : Nat) :
    textsFrom key i (ofTomlItems origin items) = .ok xs := by
  induction items generalizing xs i with
  | nil =>
    simp only [List.mapM_nil, Option.pure_def, Option.some.injEq] at h
    subst h
    rfl
  | cons v vs ih =>
    simp only [List.mapM_cons, Option.pure_def, Option.bind_eq_bind, Option.bind_eq_some_iff,
      Option.some.injEq] at h
    obtain ⟨s, hs, ys, hys, rfl⟩ := h
    cases v with
    | text t =>
      obtain rfl : t = s := by simpa [Toml.text?] using hs
      have hrest := ih hys (i + 1)
      simp only [ofTomlItems, textsFrom, ofToml, toText, hrest]
      rfl
    | _ => simp [Toml.text?] at hs

/-- A value of a document is read as that of its setting. -/
theorem reads_ofToml {l : Leaf} {v : Toml} {x : LeafValue} (h : l.kind.ofToml? v = some x)
    (origin : Option String) : l.Reads (ofToml origin v) x ∧ (ofToml origin v).isTable = false := by
  unfold Leaf.Reads
  cases hk : l.kind with
  | text =>
    rw [hk] at h
    cases v with
    | text s =>
      obtain rfl := Option.some.inj h
      exact ⟨fun key => rfl, rfl⟩
    | _ => cases h
  | count =>
    rw [hk] at h
    cases v with
    | integer n =>
      simp only [LeafKind.ofToml?, Option.ite_none_right_eq_some, Option.some.injEq] at h
      obtain ⟨hn, rfl⟩ := h
      refine ⟨fun key => ?_, rfl⟩
      show (if n < 0 then _ else Except.ok n.toNat) = _
      rw [if_neg (by omega)]
    | _ => cases h
  | texts =>
    rw [hk] at h
    cases v with
    | array items =>
      obtain ⟨xs, hxs, rfl⟩ := Option.map_eq_some_iff.mp h
      exact ⟨fun key => textsFrom_ofTomlItems origin key hxs 0, rfl⟩
    | _ => cases h

/-! ## Documents entry by entry -/

/-- A setting stands at the root or among the tools. -/
theorem path_cases (l : Leaf) :
    (∃ k, l.path = [k] ∧ k ≠ "tools") ∨ ∃ name, l.path = ["tools", name] := by
  cases l <;> first | exact .inr ⟨_, rfl⟩ | exact .inl ⟨_, rfl, by decide⟩

theorem path_eq_cons (l : Leaf) : ∃ k ks, l.path = k :: ks := by
  obtain ⟨k, hk, -⟩ | ⟨name, hname⟩ := path_cases l
  · exact ⟨k, [], hk⟩
  · exact ⟨"tools", [name], hname⟩

/-- A key other than the first one of a path leads to nothing there. -/
theorem leaf?_single_of_ne {l : Leaf} {k : String} {v : Toml}
    (h : ∀ ks, l.path ≠ k :: ks) : Toml.leaf? [(k, v)] l = none := by
  obtain ⟨k', ks, hpath⟩ := path_eq_cons l
  have hne : ¬ k = k' := by
    rintro rfl
    exact h ks hpath
  simp [Toml.leaf?, hpath, Toml.valuesAt, hne]

theorem leaf?_single {l : Leaf} {k : String} {ks : List String} {v : Toml}
    (h : l.path = k :: ks) :
    Toml.leaf? [(k, v)] l = ((Toml.valuesAt ks v).filterMap l.kind.ofToml?).getLast? := by
  simp [Toml.leaf?, h, Toml.valuesAt]

theorem leaf?_nil (l : Leaf) : Toml.leaf? [] l = none := by
  obtain ⟨k, ks, hpath⟩ := path_eq_cons l
  simp [Toml.leaf?, hpath, Toml.valuesAt]

/-- Each further entry of a document comes before those so far. -/
theorem leaf?_cons (e : String × Toml) (document : TomlTable) (l : Leaf) :
    Toml.leaf? (e :: document) l = (Toml.leaf? document l).or (Toml.leaf? [e] l) := by
  obtain ⟨k, ks, hpath⟩ := path_eq_cons l
  simp only [Toml.leaf?, hpath, Toml.valuesAt, List.flatMap_cons, List.flatMap_nil,
    List.append_nil, List.filterMap_append, List.getLast?_append]

theorem last?_mem {α : Type} {k : String} {es : List (String × α)} {v : α}
    (h : last? k es = some v) : (k, v) ∈ es := by
  have hmem := List.mem_of_getLast? h
  simp only [List.mem_filterMap, Option.ite_none_right_eq_some, Option.some.injEq] at hmem
  obtain ⟨e, he, rfl, rfl⟩ := hmem
  exact he

theorem last?_ofTomlEntries (origin : Option String) (k : String) (es : TomlTable) :
    last? k (ofTomlEntries origin es) = (last? k es).map (ofToml origin) := by
  induction es with
  | nil => rfl
  | cons e es ih =>
    obtain ⟨k', v⟩ := e
    rw [ofTomlEntries, last?_cons, last?_cons, ih]
    cases last? k es <;> by_cases hk : k' = k <;> simp [hk]

/-- Where each value of a key is of the right kind, the table gives the last one. -/
theorem getLast?_valuesAt {kind : LeafKind} {k : String} {es : TomlTable}
    (h : ∀ v, (k, v) ∈ es → (kind.ofToml? v).isSome) :
    ((Toml.valuesAt [k] (.table es)).filterMap kind.ofToml?).getLast? =
      (last? k es).bind kind.ofToml? := by
  induction es with
  | nil => rfl
  | cons e es ih =>
    obtain ⟨k', v⟩ := e
    have hrest := ih fun v hv => h v (List.mem_cons_of_mem _ hv)
    simp only [Toml.valuesAt] at hrest
    simp only [Toml.valuesAt, List.flatMap_cons, List.filterMap_append, List.getLast?_append,
      hrest, last?_cons]
    cases hlast : last? k es with
    | none =>
      by_cases hk : k' = k
      · simp only [hk, if_true, List.filterMap_cons, List.filterMap_nil, Option.none_or,
          Option.bind_some]
        cases kind.ofToml? v <;> rfl
      · simp [hk]
    | some w =>
      have hw := h w (List.mem_cons_of_mem _ (last?_mem hlast))
      obtain ⟨x, hx⟩ := Option.isSome_iff_exists.mp hw
      simp [hx]

/-- A table of tools gives a tool the last value of its name. -/
theorem leaf?_tool {l : Leaf} {name : String} (hl : l.path = ["tools", name]) {es : TomlTable}
    (kind : ∀ w, (name, w) ∈ es → (l.kind.ofToml? w).isSome) :
    Toml.leaf? [("tools", .table es)] l = (last? name es).bind l.kind.ofToml? :=
  (leaf?_single hl).trans (getLast?_valuesAt kind)

/-- It gives nothing to settings that are no tools. -/
theorem leaf?_tools_of_ne {l : Leaf} {k : String} (hl : l.path = [k]) (hk : k ≠ "tools")
    {v : Toml} : Toml.leaf? [("tools", v)] l = none := by
  refine leaf?_single_of_ne fun ks heq => ?_
  rw [hl] at heq
  exact hk (List.cons.inj heq).1

/-! ## What a variable gives -/

/-- Whether a text is read as a text, and not as a truth value or a number. -/
def readsAsText (s : String) : Bool :=
  Text.lowerAscii s ≠ "true" && Text.lowerAscii s ≠ "false" && !(Text.readSigned s).isOk &&
    (Binary64.read? s).isNone

/-- The value of a decimal that a signed integer can hold. -/
def decimal? (s : String) : Option Nat :=
  let cs := s.toList
  if cs ≠ [] ∧ cs.all Char.isDigit ∧ Binary64.digitsValue cs ≤ Text.maxSigned then
    some (Binary64.digitsValue cs)
  else none

/-- The value of a setting that a variable can give. -/
def LeafKind.ofVariable? : LeafKind → String → Option LeafValue
  | .text, s => if readsAsText s then some (.text s) else none
  | .count, s => (decimal? s).map .count
  | .texts, _ => none

/-- The value that the environment gives a setting: that of the variable that names it, of several
the last one. -/
def assigned? (environment : List (String × String)) (l : Leaf) : Option LeafValue :=
  (environment.filterMap fun e =>
    if settingKey? e.1 = some l.text then l.kind.ofVariable? e.2 else none).getLast?

/-- The name of the variable that is meant for a setting. -/
def Leaf.variableName (l : Leaf) : String :=
  "GENERATE_INDEX_" ++ (Text.joinWith "__" l.path).map Char.toUpper

theorem settingKey?_variableName (l : Leaf) : settingKey? l.variableName = some l.text := by
  cases l <;> decide +kernel

/-- A variable names no setting, or a single one of which it gives the value, or else one that is
not known. -/
def VariableFits (name value : String) : Prop :=
  ∀ key, settingKey? name = some key →
    (∃ l : Leaf, key = l.text ∧ (l.kind.ofVariable? value).isSome) ∨
      ∀ l : Leaf, parts (KeyPath.ofText key) l.path = true

/-- Each further value of a source comes before those so far. -/
theorem getLast?_filterMap_cons {α β : Type} (g : α → Option β) (a : α) (as : List α) :
    ((a :: as).filterMap g).getLast? = ((as.filterMap g).getLast?).or (g a) := by
  cases ha : g a with
  | none => rw [List.filterMap_cons_none ha, Option.or_none]
  | some b =>
    rw [List.filterMap_cons_some ha, List.getLast?_cons]
    cases (as.filterMap g).getLast? <;> rfl

theorem digitsValue_eq (cs : List Char) :
    Binary64.digitsValue cs = Nat.ofDigitChars 10 cs 0 := by
  unfold Binary64.digitsValue
  rw [Nat.ofDigitChars_eq_foldl]
  congr 1
  funext acc c
  rw [Nat.mul_comm]

/-- A word that begins with a digit stays so in lower case. -/
theorem lowerAscii_ne_of_digit {s word : String} {c d : Char} {cs ds : List Char}
    (hs : s.toList = c :: cs) (hc : c.isDigit = true) (hword : word.toList = d :: ds)
    (hd : d.isDigit = false) : Text.lowerAscii s ≠ word := by
  intro h
  have hlower : c.toLower = c := by
    simp only [Char.isDigit, Bool.and_eq_true, decide_eq_true_eq] at hc
    exact dif_neg fun hupper => absurd (UInt32.le_trans hupper.1 hc.2) (by decide)
  have hlist := congrArg String.toList h
  simp only [Text.lowerAscii, hs, hword, List.map_cons, String.toList_ofList,
    List.cons.injEq, hlower] at hlist
  rw [hlist.1, hd] at hc
  cases hc

/-- A decimal in the range of signed integers is read as an integer. -/
theorem scalarOfText_of_decimal {s : String} {n : Nat} (h : decimal? s = some n) :
    scalarOfText s = .integer (Int.ofNat n) := by
  simp only [decimal?, Option.ite_none_right_eq_some, Option.some.injEq] at h
  obtain ⟨⟨hne, hdigits, hbound⟩, rfl⟩ := h
  obtain ⟨c, cs, hs⟩ := List.exists_cons_of_ne_nil hne
  have hc : c.isDigit = true := by
    rw [hs, List.all_cons, Bool.and_eq_true] at hdigits
    exact hdigits.1
  have hread : Text.readSigned s = .ok (Int.ofNat (Binary64.digitsValue s.toList)) := by
    have hvalue : Text.readDigits Text.maxSigned .tooLarge 0 (c :: cs) =
        .ok (Binary64.digitsValue (c :: cs)) := by
      rw [hs, digitsValue_eq] at hbound
      rw [hs, List.all_eq_true] at hdigits
      rw [digitsValue_eq]
      exact (Text.readDigits_eq_ok_iff (Nat.zero_le _)).mpr ⟨hdigits, rfl, hbound⟩
    have hplus : c ≠ '+' := by rintro rfl; cases hc
    have hminus : c ≠ '-' := by rintro rfl; cases hc
    rw [Text.readSigned, hs]
    split
    · next heq => cases heq
    · next heq => exact absurd (List.cons.inj heq).1 hplus
    · next heq => exact absurd (List.cons.inj heq).1 hminus
    · next heq => exact absurd (List.cons.inj heq).1 hplus
    · next heq => exact absurd (List.cons.inj heq).1 hminus
    · rw [hvalue]
      rfl
  have htrue : Text.lowerAscii s ≠ "true" := lowerAscii_ne_of_digit hs hc (d := 't') rfl rfl
  have hfalse : Text.lowerAscii s ≠ "false" := lowerAscii_ne_of_digit hs hc (d := 'f') rfl rfl
  simp only [scalarOfText, if_neg htrue, if_neg hfalse, hread]

theorem scalarOfText_of_readsAsText {s : String} (h : readsAsText s = true) :
    scalarOfText s = .text s := by
  simp only [readsAsText, Bool.and_eq_true, decide_eq_true_eq, Bool.not_eq_true',
    ne_eq] at h
  obtain ⟨⟨⟨htrue, hfalse⟩, hsigned⟩, hfloat⟩ := h
  simp only [scalarOfText, if_neg htrue, if_neg hfalse]
  cases hr : Text.readSigned s with
  | ok n => simp [hr, Except.isOk, Except.toBool] at hsigned
  | error e =>
    rw [Option.isNone_iff_eq_none] at hfloat
    simp only [hfloat]

/-- The value of a variable is read as that of its setting. -/
theorem reads_variable {l : Leaf} {value : String} {x : LeafValue}
    (h : l.kind.ofVariable? value = some x) (origin : Option String) :
    l.Reads (.leaf origin (scalarOfText value)) x := by
  unfold Leaf.Reads
  cases hk : l.kind with
  | text =>
    rw [hk] at h
    simp only [LeafKind.ofVariable?, Option.ite_none_right_eq_some, Option.some.injEq] at h
    obtain ⟨htext, rfl⟩ := h
    rw [scalarOfText_of_readsAsText htext]
    exact fun key => rfl
  | count =>
    rw [hk] at h
    obtain ⟨n, hn, rfl⟩ := Option.map_eq_some_iff.mp h
    rw [scalarOfText_of_decimal hn]
    exact fun key => rfl
  | texts =>
    rw [hk] at h
    cases h

end CodeIndex

import CodeIndex.Proofs.Toml.Written

/-!
# Reading back written documents

A document is read line by line. Each line of plain values adds a value to the table that the last
header opened, which is the root before the first header, and each header adds an empty table to the
root. So the document that is written for plain values and tables of such values holds just these.

* `statements?_line`, `statements?_header` : one line;
* `Hole` : where in the root the open table is;
* `statements?_plainLines`, `statements?_tableLines` : the lines of tables;
* `read?_document` : a written document is read back;
* `read?_document_beyond` : one with a number that is out of range is not.
-/

namespace CodeIndex.Toml

/-! ## Keys -/

/-- Whether a key is written without quotes. -/
def isBareKey (k : String) : Bool := !k.toList.isEmpty && k.toList.all isKeyChar

theorem keyChar_solid {c : Char} (h : isKeyChar c = true) :
    isSolid c = true ∧ c ≠ '"' ∧ c ≠ '\'' ∧ c ≠ '[' := by
  have hne : ∀ d, isKeyChar d = false → c ≠ d := by
    rintro d hd rfl
    rw [h] at hd
    cases hd
  refine ⟨?_, hne _ (by decide), hne _ (by decide), hne _ (by decide)⟩
  simp [isSolid, isSpace, hne ' ' (by decide), hne '\t' (by decide), hne '#' (by decide),
    hne '\n' (by decide), hne '\r' (by decide)]

variable {k : String}

theorem bareKey_start (h : isBareKey k = true) :
    ∃ c cs, k.toList = c :: cs ∧ isKeyChar c = true := by
  simp only [isBareKey, Bool.and_eq_true, Bool.not_eq_true', List.isEmpty_eq_false_iff] at h
  obtain ⟨c, cs, hcs⟩ := List.exists_cons_of_ne_nil h.1
  rw [hcs, List.all_cons, Bool.and_eq_true] at h
  exact ⟨c, cs, hcs, h.2.1⟩

/-- A key without quotes is read up to the first character that is none of keys. -/
theorem key?_bare (h : isBareKey k = true) {c : Char} (hc : isKeyChar c = false)
    (rest : List Char) : key? (k.toList ++ c :: rest) = some (k, c :: rest) := by
  obtain ⟨d, cs, hcs, hd⟩ := bareKey_start h
  simp only [isBareKey, Bool.and_eq_true] at h
  have hall : ∀ e ∈ k.toList, isKeyChar e = true := List.all_eq_true.mp h.2
  have hquote : lineString? (k.toList ++ c :: rest) = none := by
    obtain ⟨-, hdouble, hsingle, -⟩ := keyChar_solid hd
    rw [hcs]
    unfold lineString?
    split
    · next heq => exact absurd (List.cons.inj heq).1 hdouble
    · next heq => exact absurd (List.cons.inj heq).1 hsingle
    · rfl
  have hstop : (c :: rest).takeWhile isKeyChar = [] ∧
      (c :: rest).dropWhile isKeyChar = c :: rest := by
    rw [List.takeWhile_cons, List.dropWhile_cons, hc]
    exact ⟨rfl, rfl⟩
  have hempty : k.toList.isEmpty = false := by
    rw [hcs]
    rfl
  rw [key?, hquote, List.takeWhile_append_of_pos hall, List.dropWhile_append_of_pos hall,
    hstop.1, hstop.2, List.append_nil]
  dsimp only
  rw [hempty, String.ofList_toList]
  rfl

/-- A single key without quotes, behind which something else than a dot follows. -/
theorem dottedKey?_bare (h : isBareKey k = true) {c d : Char} {rest more : List Char}
    (hc : isKeyChar c = false) (hskip : skipSpaces (c :: rest) = d :: more) (hd : d ≠ '.') :
    dottedKey? (k.toList ++ c :: rest) = some ([], k, d :: more) := by
  obtain ⟨e, cs, hcs, he⟩ := bareKey_start h
  have hstart : skipSpaces (k.toList ++ c :: rest) = k.toList ++ c :: rest := by
    have hsolid := (keyChar_solid he).1
    simp only [isSolid, Bool.and_eq_true, Bool.not_eq_true'] at hsolid
    rw [hcs]
    exact skipSpaces_of_not_space hsolid.1.1.1 _
  have hkeys : keys? (k.toList ++ c :: rest) ((k.toList ++ c :: rest).length + 1) =
      some ([k], d :: more) := by
    rw [keys?, hstart, key?_bare h hc]
    simp only [Option.bind_eq_bind, Option.bind_some, hskip]
    split
    · next heq => exact absurd (List.cons.inj heq).1 hd
    · rfl
  rw [dottedKey?, hkeys]
  rfl

/-! ## Lines -/

/-- The line of a plain value. -/
def line (k : String) (v : Toml) : List Char :=
  k.toList ++ ' ' :: '=' :: ' ' :: ((written v).toList ++ ['\n'])

theorem statement?_line (h : isBareKey k = true) (doc : Document) (v : Toml) {rest : List Char}
    (hstart : ∃ c cs, (written v).toList = c :: cs ∧ isSolid c = true) :
    statement? doc (line k v ++ rest) =
      (value? maxDepth ((written v).toList ++ '\n' :: rest)).bind fun r =>
        (Draft.modifyAt (Draft.store [] k r.1) doc.header doc.root).map fun root =>
          (⟨root, doc.header⟩, r.2) := by
  obtain ⟨c, cs, hcs, hc⟩ := bareKey_start h
  obtain ⟨d, ds, hds, hd⟩ := hstart
  have htext : line k v ++ rest =
      k.toList ++ ' ' :: '=' :: ' ' :: ((written v).toList ++ '\n' :: rest) := by
    simp [line]
  have hspace : skipSpaces (' ' :: ((written v).toList ++ '\n' :: rest)) =
      (written v).toList ++ '\n' :: rest := by
    simp only [isSolid, Bool.and_eq_true, Bool.not_eq_true'] at hd
    rw [hds]
    exact skipSpaces_of_not_space hd.1.1.1 _
  have hkey : dottedKey? (k.toList ++ ' ' :: '=' :: ' ' :: ((written v).toList ++ '\n' :: rest)) =
      some ([], k, '=' :: ' ' :: ((written v).toList ++ '\n' :: rest)) :=
    dottedKey?_bare h (by decide) rfl (by decide)
  have hpair : pair? (value? maxDepth) (line k v ++ rest) =
      (value? maxDepth ((written v).toList ++ '\n' :: rest)).map fun r => ([], k, r.1, r.2) := by
    rw [htext, pair?, hkey]
    show ((value? maxDepth (skipSpaces (' ' :: ((written v).toList ++ '\n' :: rest)))).bind
      fun r => some ([], k, r.1, r.2)) = _
    rw [hspace]
    cases value? maxDepth ((written v).toList ++ '\n' :: rest) <;> rfl
  have hbracket : ∀ more, line k v ++ rest ≠ '[' :: more := by
    intro more heq
    rw [htext, hcs] at heq
    exact (keyChar_solid hc).2.2.2 (List.cons.inj heq).1
  unfold statement?
  split
  · next heq => exact absurd heq (hbracket _)
  · next heq => exact absurd heq (hbracket _)
  · rw [hpair]
    cases value? maxDepth ((written v).toList ++ '\n' :: rest) with
    | none => rfl
    | some r =>
      obtain ⟨w, more⟩ := r
      show (Draft.modifyAt (Draft.store [] k w) doc.header doc.root).bind _ =
        (Draft.modifyAt (Draft.store [] k w) doc.header doc.root).map _
      cases Draft.modifyAt (Draft.store [] k w) doc.header doc.root <;> rfl

/-- Statements are read one after another: the first one is solid, and its line ends. -/
theorem statements?_cons {doc doc' : Document} {cs body rest : List Char}
    (hgap : ∃ c more, skipGap cs = c :: more)
    (hread : statement? doc (skipGap cs) = some (doc', rest)) (hend : endOfLine? rest = some body)
    (count : Nat) : statements? doc cs (count + 1) = statements? doc' body count := by
  obtain ⟨c, more, hgap⟩ := hgap
  rw [hgap] at hread
  rw [statements?, hgap]
  simp only [hread, Option.bind_eq_bind, Option.bind_some, hend]

theorem line_start (h : isBareKey k = true) (v : Toml) (rest : List Char) :
    ∃ c more, line k v ++ rest = c :: more ∧ isSolid c = true := by
  obtain ⟨c, cs, hcs, hc⟩ := bareKey_start h
  have hline : line k v ++ rest =
      c :: (cs ++ ' ' :: '=' :: ' ' :: ((written v).toList ++ ['\n']) ++ rest) := by
    rw [line, hcs]
    rfl
  exact ⟨c, _, hline, (keyChar_solid hc).1⟩

/-- The line of a value that is read back adds the value to the open table. -/
theorem statements?_line (h : isBareKey k = true) {v : Toml} (reads : ReadsBack maxDepth v)
    {root root' : Draft.Entries} {header : List String}
    (hstore : Draft.modifyAt (Draft.store [] k v) header root = some root') (rest : List Char)
    (count : Nat) : statements? ⟨root, header⟩ (line k v ++ rest) (count + 1) =
      statements? ⟨root', header⟩ rest count := by
  obtain ⟨c, more, hstart, hsolid⟩ := line_start h v rest
  have hgap : skipGap (line k v ++ rest) = line k v ++ rest := by
    rw [hstart]
    exact skipGap_solid hsolid _
  obtain ⟨d, ds, hds, hd, -⟩ := reads.start
  refine statements?_cons ⟨c, more, hgap.trans hstart⟩ ?_
    (rfl : endOfLine? ('\n' :: rest) = some rest) count
  rw [hgap, statement?_line h _ v ⟨d, ds, hds, hd⟩, reads.read ('\n' :: rest) rfl,
    Option.bind_some]
  dsimp only
  rw [hstore]
  rfl

/-- A document with a line that has no value is malformed. -/
theorem statements?_line_none (h : isBareKey k = true) {v : Toml}
    (hstart : ∃ c cs, (written v).toList = c :: cs ∧ isSolid c = true) {rest : List Char}
    (hread : value? maxDepth ((written v).toList ++ '\n' :: rest) = none) (doc : Document)
    (count : Nat) : statements? doc (line k v ++ rest) count = none := by
  obtain ⟨c, more, hline, hsolid⟩ := line_start h v rest
  have hgap : skipGap (line k v ++ rest) = c :: more := by
    rw [hline]
    exact skipGap_solid hsolid _
  have hnone : statement? doc (c :: more) = none := by
    rw [← hline, statement?_line h doc v hstart, hread]
    rfl
  cases count with
  | zero => rw [statements?]
  | succ count =>
    rw [statements?, hgap]
    simp only [hnone, Option.bind_eq_bind, Option.bind_none]

/-- A header opens a new table in the root. -/
theorem statements?_header (h : isBareKey k = true) {root : Draft.Entries}
    (hnew : root.lookup k = none) (header : List String) (rest : List Char) (count : Nat) :
    statements? ⟨root, header⟩ ('\n' :: '[' :: (k.toList ++ ']' :: '\n' :: rest)) (count + 1) =
      statements? ⟨root ++ [(k, .table false false [])], [k]⟩ rest count := by
  obtain ⟨c, cs, hcs, hc⟩ := bareKey_start h
  have hgap : skipGap ('\n' :: '[' :: (k.toList ++ ']' :: '\n' :: rest)) =
      '[' :: (k.toList ++ ']' :: '\n' :: rest) := (skipGap_line (by decide) _).1
  refine statements?_cons ⟨_, _, hgap⟩ ?_ (rfl : endOfLine? ('\n' :: rest) = some rest) count
  have hbracket : ∀ more, k.toList ++ ']' :: '\n' :: rest ≠ '[' :: more := by
    intro more heq
    rw [hcs] at heq
    exact (keyChar_solid hc).2.2.2 (List.cons.inj heq).1
  have hkey : dottedKey? (k.toList ++ ']' :: '\n' :: rest) =
      some ([], k, ']' :: '\n' :: rest) := dottedKey?_bare h (by decide) rfl (by decide)
  have hopen : Draft.openTable [] k root = some (root ++ [(k, .table false false [])]) := by
    rw [Draft.openTable, Draft.modifyAt, hnew]
  rw [hgap]
  unfold statement?
  split
  · next heq => exact absurd (List.cons.inj heq).2 (hbracket _)
  · next heq =>
    obtain rfl := (List.cons.inj heq).2
    rw [header?, hkey]
    show (do
      let root ← Draft.openTable [] k root
      some ((⟨root, [k]⟩ : Document), '\n' :: rest)) = _
    rw [hopen]
    rfl
  · next hother => exact absurd rfl (hother _)

/-! ## Tables -/

/-- Whether a value is a table. -/
def isTable : Toml → Bool
  | .table _ => true
  | _ => false

/-- A table that can be written and read back: of plain values under keys without quotes. -/
structure Writable (es : TomlTable) : Prop where
  bare : ∀ e ∈ es, isBareKey e.1 = true
  reads : ∀ e ∈ es, ReadsBack maxDepth e.2
  plain : ∀ e ∈ es, e.2.isTable = false
  nodup : (es.map Prod.fst).Nodup

/-- The values of a table as they are kept while it is read. -/
def drafts (es : TomlTable) : Draft.Entries := es.map fun e => (e.1, .value e.2)

/-- The table that a header has opened stands in the root where `fill` puts it. -/
def Hole (header : List String) (fill : Draft.Entries → Draft.Entries) : Prop :=
  ∀ f es, Draft.modifyAt f header (fill es) = (f es).map fill

theorem hole_root : Hole [] id := by
  intro f es
  rw [Draft.modifyAt, Option.map_id]
  rfl

theorem replace_of_not_mem {es : Draft.Entries} {d : Draft} (h : k ∉ es.map Prod.fst) :
    Draft.Entries.replace es k d = es := by
  unfold Draft.Entries.replace
  refine (List.map_congr_left fun e he => ?_).trans (List.map_id _)
  have hne : ¬ e.1 = k := fun heq => h (heq ▸ List.mem_map_of_mem he)
  show (if e.1 = k then (e.1, d) else (e.1, e.2)) = e
  rw [if_neg hne]

theorem lookup_eq_none {α : Type} {es : List (String × α)} (h : k ∉ es.map Prod.fst) :
    es.lookup k = none := by
  rw [List.lookup_eq_none_iff]
  intro e he
  have hne : ¬ k = e.1 := fun heq => h (heq ▸ List.mem_map_of_mem he)
  simpa using hne

theorem hole_table {es : Draft.Entries} (h : k ∉ es.map Prod.fst) :
    Hole [k] fun inner => es ++ [(k, .table false false inner)] := by
  intro f inner
  have hlookup : (es ++ [(k, Draft.table false false inner)]).lookup k =
      some (.table false false inner) := by
    rw [List.lookup_append, lookup_eq_none h]
    simp
  have hreplace : ∀ d, Draft.Entries.replace (es ++ [(k, Draft.table false false inner)]) k d =
      es ++ [(k, d)] := by
    intro d
    have hold := replace_of_not_mem (d := d) h
    unfold Draft.Entries.replace at hold ⊢
    rw [List.map_append, hold]
    simp
  rw [Draft.modifyAt, hlookup]
  dsimp only
  rw [Draft.modifyAt]
  cases f inner with
  | none => rfl
  | some filled => simp [hreplace]

theorem store_new {es : Draft.Entries} (h : k ∉ es.map Prod.fst) (v : Toml) :
    Draft.store [] k v es = some (es ++ [(k, .value v)]) := by
  rw [Draft.store, lookup_eq_none h]
  rfl

theorem plainLines_cons {v : Toml} (h : v.isTable = false) (es : TomlTable) :
    (plainLines ((k, v) :: es)).toList = line k v ++ (plainLines es).toList := by
  have hplain : plainLines ((k, v) :: es) =
      k ++ " = " ++ written v ++ "\n" ++ plainLines es := by
    cases v with
    | table entries => cases h
    | _ => rfl
  rw [hplain]
  simp [line, String.toList_append]

/-- The lines of plain values add these to the open table. -/
theorem statements?_plainLines {es : TomlTable} (h : Writable es) {header : List String}
    {fill : Draft.Entries → Draft.Entries} (hole : Hole header fill) {old : Draft.Entries}
    (hnew : ∀ e ∈ es, e.1 ∉ old.map Prod.fst) (rest : List Char) (count : Nat) :
    statements? ⟨fill old, header⟩ ((plainLines es).toList ++ rest) (count + es.length) =
      statements? ⟨fill (old ++ drafts es), header⟩ rest count := by
  induction es generalizing old with
  | nil =>
    rw [drafts, List.map_nil, List.append_nil]
    rfl
  | cons e es ih =>
    obtain ⟨k, v⟩ := e
    have hnodup := List.nodup_cons.mp h.nodup
    have hrest : Writable es :=
      ⟨fun e he => h.bare e (List.mem_cons_of_mem _ he),
        fun e he => h.reads e (List.mem_cons_of_mem _ he),
        fun e he => h.plain e (List.mem_cons_of_mem _ he), hnodup.2⟩
    have hstore : Draft.modifyAt (Draft.store [] k v) header (fill old) =
        some (fill (old ++ [(k, .value v)])) := by
      rw [hole, store_new (hnew (k, v) List.mem_cons_self)]
      rfl
    have hnew' : ∀ e ∈ es, e.1 ∉ (old ++ [(k, Draft.value v)]).map Prod.fst := by
      intro e he
      rw [List.map_append, List.mem_append, not_or]
      refine ⟨hnew e (List.mem_cons_of_mem _ he), fun hmem => ?_⟩
      have heq : e.1 = k := by simpa using hmem
      refine hnodup.1 ?_
      show k ∈ es.map Prod.fst
      rw [← heq]
      exact List.mem_map_of_mem he
    rw [plainLines_cons (h.plain (k, v) List.mem_cons_self), List.append_assoc]
    rw [List.length_cons, ← Nat.add_assoc]
    rw [statements?_line (h.bare (k, v) List.mem_cons_self) (h.reads (k, v) List.mem_cons_self)
      hstore, ih hrest hnew', List.append_assoc]
    rfl

/-- The lines of plain values are all there is in a table that is new. -/
theorem statements?_newLines {es : TomlTable} (h : Writable es) {header : List String}
    {fill : Draft.Entries → Draft.Entries} (hole : Hole header fill) (rest : List Char)
    (count : Nat) :
    statements? ⟨fill [], header⟩ ((plainLines es).toList ++ rest) (count + es.length) =
      statements? ⟨fill (drafts es), header⟩ rest count :=
  statements?_plainLines h hole (fun _ _ => List.not_mem_nil) rest count

/-- Tables as values. -/
def asTables (tables : List (String × TomlTable)) : TomlTable :=
  tables.map fun t => (t.1, .table t.2)

/-- The tables of a root as they are kept when it has been read. -/
def tableDrafts (tables : List (String × TomlTable)) : Draft.Entries :=
  tables.map fun t => (t.1, .table false false (drafts t.2))

/-- The number of lines that are read for tables. -/
def tableLineCount : List (String × TomlTable) → Nat
  | [] => 0
  | t :: tables => t.2.length + 1 + tableLineCount tables

theorem tableLines_cons (es : TomlTable) (tables : List (String × TomlTable)) :
    (tableLines (asTables ((k, es) :: tables))).toList =
      '\n' :: '[' :: (k.toList ++ ']' :: '\n' :: ((plainLines es).toList ++
        (tableLines (asTables tables)).toList)) := by
  rw [asTables, List.map_cons, tableLines]
  simp [asTables, String.toList_append]

/-- The lines of tables add these to the root, and nothing follows them. -/
theorem statements?_tableLines {tables : List (String × TomlTable)}
    (bare : ∀ t ∈ tables, isBareKey t.1 = true) (writable : ∀ t ∈ tables, Writable t.2)
    (nodup : (tables.map Prod.fst).Nodup) {root : Draft.Entries}
    (hnew : ∀ t ∈ tables, t.1 ∉ root.map Prod.fst) (header : List String) (count : Nat) :
    ∃ header', statements? ⟨root, header⟩ (tableLines (asTables tables)).toList
      (count + 1 + tableLineCount tables) = some ⟨root ++ tableDrafts tables, header'⟩ := by
  induction tables generalizing root header with
  | nil =>
    refine ⟨header, ?_⟩
    rw [tableDrafts, List.map_nil, List.append_nil]
    rfl
  | cons t tables ih =>
    obtain ⟨k, es⟩ := t
    have hnodup := List.nodup_cons.mp nodup
    have hk : k ∉ root.map Prod.fst := hnew (k, es) List.mem_cons_self
    have hnew' : ∀ t ∈ tables,
        t.1 ∉ (root ++ [(k, Draft.table false false (drafts es))]).map Prod.fst := by
      intro t ht
      rw [List.map_append, List.mem_append, not_or]
      refine ⟨hnew t (List.mem_cons_of_mem _ ht), fun hmem => ?_⟩
      have heq : t.1 = k := by simpa using hmem
      refine hnodup.1 ?_
      show k ∈ tables.map Prod.fst
      rw [← heq]
      exact List.mem_map_of_mem ht
    obtain ⟨header', hrest⟩ := ih (fun t ht => bare t (List.mem_cons_of_mem _ ht))
      (fun t ht => writable t (List.mem_cons_of_mem _ ht)) hnodup.2 hnew' [k]
    refine ⟨header', ?_⟩
    have hcount : count + 1 + tableLineCount ((k, es) :: tables) =
        count + 1 + tableLineCount tables + es.length + 1 := by
      simp only [tableLineCount]
      omega
    have hlines := statements?_newLines (writable (k, es) List.mem_cons_self) (hole_table hk)
      (tableLines (asTables tables)).toList (count + 1 + tableLineCount tables)
    rw [hcount, tableLines_cons,
      statements?_header (bare (k, es) List.mem_cons_self) (lookup_eq_none hk), hlines]
    rw [hrest, List.append_assoc]
    rfl

/-! ## Documents -/

theorem plainLines_append (es fs : TomlTable) :
    plainLines (es ++ fs) = plainLines es ++ plainLines fs := by
  induction es with
  | nil => simp [plainLines]
  | cons e es ih =>
    obtain ⟨k, v⟩ := e
    cases v <;> simp [plainLines, ih, String.append_assoc]

theorem plainLines_asTables (tables : List (String × TomlTable)) :
    plainLines (asTables tables) = "" := by
  induction tables with
  | nil => rfl
  | cons t tables ih => rw [asTables, List.map_cons, plainLines]; exact ih

theorem tableLines_append_of_plain {es : TomlTable} (h : ∀ e ∈ es, e.2.isTable = false)
    (fs : TomlTable) : tableLines (es ++ fs) = tableLines fs := by
  induction es with
  | nil => rfl
  | cons e es ih =>
    obtain ⟨k, v⟩ := e
    have hv : v.isTable = false := h (k, v) List.mem_cons_self
    rw [List.cons_append]
    cases v with
    | table entries => cases hv
    | _ => exact ih fun e he => h e (List.mem_cons_of_mem _ he)

theorem length_le_plainLines {es : TomlTable} (h : ∀ e ∈ es, e.2.isTable = false) :
    es.length ≤ (plainLines es).toList.length := by
  induction es with
  | nil => exact Nat.zero_le _
  | cons e es ih =>
    obtain ⟨k, v⟩ := e
    have hes := ih fun e he => h e (List.mem_cons_of_mem _ he)
    rw [plainLines_cons (h (k, v) List.mem_cons_self)]
    simp only [line, List.length_append, List.length_cons, List.length_nil]
    omega

theorem tableLineCount_le {tables : List (String × TomlTable)}
    (h : ∀ t ∈ tables, Writable t.2) :
    tableLineCount tables ≤ (tableLines (asTables tables)).toList.length := by
  induction tables with
  | nil => exact Nat.zero_le _
  | cons t tables ih =>
    obtain ⟨k, es⟩ := t
    have hrest := ih fun t ht => h t (List.mem_cons_of_mem _ ht)
    have hes : es.length ≤ (plainLines es).toList.length :=
      length_le_plainLines (h (k, es) List.mem_cons_self).plain
    rw [tableLines_cons]
    simp only [tableLineCount, List.length_cons, List.length_append] at hrest ⊢
    omega

theorem finishedEntries_append (es fs : Draft.Entries) :
    Draft.finishedEntries (es ++ fs) = Draft.finishedEntries es ++ Draft.finishedEntries fs := by
  induction es with
  | nil => rfl
  | cons e es ih =>
    obtain ⟨k, d⟩ := e
    rw [List.cons_append, Draft.finishedEntries, Draft.finishedEntries, ih]
    rfl

theorem finishedEntries_drafts (es : TomlTable) : Draft.finishedEntries (drafts es) = es := by
  induction es with
  | nil => rfl
  | cons e es ih =>
    obtain ⟨k, v⟩ := e
    show (k, v) :: Draft.finishedEntries (drafts es) = _
    rw [ih]

theorem finishedEntries_tableDrafts (tables : List (String × TomlTable)) :
    Draft.finishedEntries (tableDrafts tables) = asTables tables := by
  induction tables with
  | nil => rfl
  | cons t tables ih =>
    obtain ⟨k, es⟩ := t
    show (k, Toml.table (Draft.finishedEntries (drafts es))) ::
      Draft.finishedEntries (tableDrafts tables) = _
    rw [ih, finishedEntries_drafts]
    rfl

/-- A byte order mark is not what a written document begins with. -/
theorem read?_of_start {s : String} (h : ∀ c cs, s.toList = c :: cs → c.toNat < 128) :
    read? s = (statements? ⟨[], []⟩ s.toList (s.toList.length + 1)).map fun doc =>
      Draft.finishedEntries doc.root := by
  unfold read?
  cases hs : s.toList with
  | nil => rfl
  | cons c cs =>
    have hc := h c cs hs
    dsimp only
    rw [if_neg (by omega)]

theorem keyChar_ascii {c : Char} (h : isKeyChar c = true) : c.toNat < 128 := by
  have hle : ∀ d : UInt32, c.val ≤ d → d.toNat < 128 → c.toNat < 128 :=
    fun d hcd hd => Nat.lt_of_le_of_lt (UInt32.le_iff_toNat_le.mp hcd) hd
  unfold isKeyChar Char.isAlphanum Char.isAlpha Char.isUpper Char.isLower Char.isDigit at h
  simp only [Bool.or_eq_true, Bool.and_eq_true, decide_eq_true_eq] at h
  obtain (((h | h) | h) | rfl) | rfl := h
  · exact hle _ h.2 (by decide)
  · exact hle _ h.2 (by decide)
  · exact hle _ h.2 (by decide)
  · decide
  · decide

theorem line_ascii (h : isBareKey k = true) {v : Toml} {rest cs : List Char} {c : Char}
    (hline : line k v ++ rest = c :: cs) : c.toNat < 128 := by
  obtain ⟨d, ds, hd, hkey⟩ := bareKey_start h
  rw [line, hd] at hline
  obtain rfl := (List.cons.inj hline).1
  exact keyChar_ascii hkey

theorem keys_drafts (es : TomlTable) : (drafts es).map Prod.fst = es.map Prod.fst := by
  rw [drafts, List.map_map]
  rfl

/-- A document of plain values and of tables of such values is read back. -/
theorem read?_document {plain : TomlTable} {tables : List (String × TomlTable)}
    (hplain : Writable plain) (bare : ∀ t ∈ tables, isBareKey t.1 = true)
    (writable : ∀ t ∈ tables, Writable t.2)
    (nodup : (plain.map Prod.fst ++ tables.map Prod.fst).Nodup) :
    read? (document (plain ++ asTables tables)) = some (plain ++ asTables tables) := by
  have hdocument : (document (plain ++ asTables tables)).toList =
      (plainLines plain).toList ++ (tableLines (asTables tables)).toList := by
    rw [document, plainLines_append, plainLines_asTables, tableLines_append_of_plain hplain.plain]
    simp [String.toList_append]
  have hstart : ∀ c cs, (document (plain ++ asTables tables)).toList = c :: cs →
      c.toNat < 128 := by
    intro c cs hcs
    rw [hdocument] at hcs
    match plain, tables, hplain with
    | [], [], _ => cases hcs
    | [], (k, es) :: tables, _ =>
      rw [tableLines_cons] at hcs
      obtain rfl := (List.cons.inj hcs).1
      decide
    | (k, v) :: plain, _, hplain =>
      rw [plainLines_cons (hplain.plain (k, v) List.mem_cons_self), List.append_assoc] at hcs
      exact line_ascii (hplain.bare (k, v) List.mem_cons_self) hcs
  obtain ⟨-, hnodup, hapart⟩ := List.nodup_append.mp nodup
  have hnew : ∀ t ∈ tables, t.1 ∉ (drafts plain).map Prod.fst := by
    intro t ht hmem
    rw [keys_drafts] at hmem
    exact hapart t.1 hmem t.1 (List.mem_map_of_mem ht) rfl
  obtain ⟨count, hcount⟩ : ∃ count, (document (plain ++ asTables tables)).toList.length + 1 =
      count + 1 + tableLineCount tables + plain.length := by
    have hlines := length_le_plainLines hplain.plain
    have htable := tableLineCount_le writable
    rw [hdocument, List.length_append]
    exact ⟨(plainLines plain).toList.length + (tableLines (asTables tables)).toList.length -
      plain.length - tableLineCount tables, by omega⟩
  obtain ⟨header, htables⟩ := statements?_tableLines bare writable hnodup hnew [] count
  have hread := statements?_newLines hplain hole_root (tableLines (asTables tables)).toList
    (count + 1 + tableLineCount tables)
  have hroot : statements? ⟨[], []⟩ ((plainLines plain).toList ++
      (tableLines (asTables tables)).toList) (count + 1 + tableLineCount tables + plain.length) =
        some ⟨drafts plain ++ tableDrafts tables, header⟩ := hread.trans htables
  rw [read?_of_start hstart, hcount, hdocument, hroot, Option.map_some, finishedEntries_append,
    finishedEntries_drafts, finishedEntries_tableDrafts]

/-- A document with a number that is out of range is malformed, whatever comes after it. -/
theorem read?_document_beyond {before : TomlTable} (hbefore : Writable before) {k : String}
    (hk : isBareKey k = true) {n : Nat} (hn : Text.maxSigned < n) (after : TomlTable) :
    read? (document (before ++ (k, .integer (Int.ofNat n)) :: after)) = none := by
  obtain ⟨rest, hdocument⟩ : ∃ rest,
      (document (before ++ (k, .integer (Int.ofNat n)) :: after)).toList =
        (plainLines before).toList ++ (line k (.integer (Int.ofNat n)) ++ rest) := by
    refine ⟨(plainLines after).toList ++
      (tableLines (before ++ (k, .integer (Int.ofNat n)) :: after)).toList, ?_⟩
    rw [document, plainLines_append, String.toList_append, String.toList_append,
      plainLines_cons rfl, List.append_assoc, List.append_assoc]
  have hstart : ∀ c cs, (document (before ++ (k, .integer (Int.ofNat n)) :: after)).toList =
      c :: cs → c.toNat < 128 := by
    intro c cs hcs
    rw [hdocument] at hcs
    match before, hbefore with
    | [], _ => exact line_ascii hk hcs
    | (k', v) :: before, hbefore =>
      rw [plainLines_cons (hbefore.plain (k', v) List.mem_cons_self), List.append_assoc] at hcs
      exact line_ascii (hbefore.bare (k', v) List.mem_cons_self) hcs
  obtain ⟨count, hcount⟩ : ∃ count,
      (document (before ++ (k, .integer (Int.ofNat n)) :: after)).toList.length + 1 =
        count + before.length := by
    have hlines := length_le_plainLines hbefore.plain
    rw [hdocument, List.length_append]
    exact ⟨(plainLines before).toList.length +
      (line k (.integer (Int.ofNat n)) ++ rest).length + 1 - before.length, by omega⟩
  have hread := statements?_newLines hbefore hole_root
    (line k (.integer (Int.ofNat n)) ++ rest) count
  obtain ⟨c, cs, hdigits, hsolid, -⟩ := written_integer_start n
  have hvalue : value? maxDepth ((written (.integer (Int.ofNat n))).toList ++ '\n' :: rest) = none :=
    value?_beyond maxDepth hn rfl
  have hnone := statements?_line_none hk ⟨c, cs, hdigits, hsolid⟩ hvalue
    ⟨id (drafts before), []⟩ count
  have hroot : statements? ⟨[], []⟩ ((plainLines before).toList ++
      (line k (.integer (Int.ofNat n)) ++ rest)) (count + before.length) = none :=
    hread.trans hnone
  rw [read?_of_start hstart, hcount, hdocument, hroot]
  rfl

end CodeIndex.Toml

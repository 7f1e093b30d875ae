import CodeIndex.Proofs.Path.Names
import Mathlib.Data.List.Induction

/-!
# Well-formed file systems

What holds of every file system that an operating system shows: one entry at a place, a directory
above every entry, names that can be written, and no file identity that is yet to be given.

* `get?_put`, `get?_erase`, `get?_eraseTree`, `get?_mapFile` : what an update leaves to be seen;
* `FileSystem.WellFormed` : the invariant, with one lemma for each update that keeps it;
* `WellFormed.isDirAt_of_append` : all that is above an entry is a directory.
-/

namespace CodeIndex

/-- What an entry of a directory can be called. -/
structure IsName (s : String) : Prop extends PlainName s where
  short : s.utf8ByteSize ≤ FileSystem.maxName

theorem isName_iff (s : String) : IsName s ↔ s ≠ "" ∧ s ≠ "." ∧ s ≠ ".." ∧ '/' ∉ s.toList ∧
    s.utf8ByteSize ≤ FileSystem.maxName :=
  ⟨fun h => ⟨h.ne_empty, h.ne_dot, h.ne_dotDot, h.no_slash, h.short⟩,
    fun ⟨h1, h2, h3, h4, h5⟩ => ⟨⟨h1, h2, h3, h4⟩, h5⟩⟩

instance (s : String) : Decidable (IsName s) := decidable_of_iff _ (isName_iff s).symm

namespace Entry

@[simp] theorem isDir_mapFile (id : Nat) (f : Nat × List UInt8 → Nat × List UInt8) (e : Entry) :
    (e.mapFile id f).isDir = e.isDir := by
  cases e <;> simp only [mapFile]
  split <;> rfl

@[simp] theorem isLink_mapFile (id : Nat) (f : Nat × List UInt8 → Nat × List UInt8) (e : Entry) :
    (e.mapFile id f).isLink = e.isLink := by
  cases e <;> simp only [mapFile]
  split <;> rfl

@[simp] theorem fileId?_mapFile (id : Nat) (f : Nat × List UInt8 → Nat × List UInt8) (e : Entry) :
    (e.mapFile id f).fileId? = e.fileId? := by
  cases e <;> simp only [mapFile]
  split <;> rfl

/-- Only the file meant changes. -/
theorem mapFile_of_ne {id : Nat} {f : Nat × List UInt8 → Nat × List UInt8} {e : Entry}
    (h : e.fileId? ≠ some id) : e.mapFile id f = e := by
  cases e with
  | file id' mode bytes => exact if_neg fun hid => h (by simp [fileId?, hid])
  | _ => rfl

theorem isDir_iff {e : Entry} : e.isDir = true ↔ ∃ mode, e = .dir mode := by
  cases e <;> simp [isDir]

theorem isLink_iff {e : Entry} : e.isLink = true ↔ ∃ target, e = .link target := by
  cases e <;> simp [isLink]

end Entry

namespace FileSystem

/-! ## What updates leave to be seen -/

theorem get?_of_ne {fs : FileSystem} {p : Place} (h : p ≠ []) : fs.get? p = fs.entries.lookup p := by
  cases p with
  | nil => exact absurd rfl h
  | cons n p => rfl

theorem mem_of_lookup {l : List (Place × Entry)} {p : Place} {e : Entry} (h : l.lookup p = some e) :
    (p, e) ∈ l := by
  obtain ⟨l₁, l₂, rfl, -⟩ := List.lookup_eq_some_iff.mp h
  exact List.mem_append_right _ List.mem_cons_self

theorem lookup_of_mem {l : List (Place × Entry)} {p : Place} {e : Entry}
    (hl : (l.map Prod.fst).Nodup) (h : (p, e) ∈ l) : l.lookup p = some e := by
  induction l with
  | nil => simp at h
  | cons x l ih =>
    rw [List.map_cons, List.nodup_cons] at hl
    rw [List.lookup_cons]
    rcases List.mem_cons.mp h with rfl | h
    · simp
    · have hne : p ≠ x.1 := fun hx => hl.1 (hx ▸ List.mem_map_of_mem h)
      rw [beq_false_of_ne hne]
      exact ih hl.2 h

theorem lookup_filter {l : List (Place × Entry)} {keep : Place × Entry → Bool} {q : Place}
    (h : ∀ e, keep (q, e) = true) : (l.filter keep).lookup q = l.lookup q := by
  induction l with
  | nil => rfl
  | cons x l ih =>
    obtain ⟨p, e⟩ := x
    by_cases hq : q = p
    · subst hq
      simp [h]
    · have hqp : (q == p) = false := beq_false_of_ne hq
      rw [List.filter_cons]
      split <;> simp [List.lookup_cons, hqp, ih]

theorem lookup_filter_none {l : List (Place × Entry)} {keep : Place × Entry → Bool} {q : Place}
    (h : ∀ e, keep (q, e) = false) : (l.filter keep).lookup q = none := by
  rw [List.lookup_eq_none_iff]
  intro x hx
  obtain ⟨p, e⟩ := x
  have hkeep := (List.mem_filter.mp hx).2
  by_cases hq : q = p
  · subst hq
    simp [h] at hkeep
  · simpa using hq

variable {fs : FileSystem} {p q : Place} {e : Entry}

theorem get?_put (hp : p ≠ []) : (fs.put p e).get? q = if q = p then some e else fs.get? q := by
  by_cases hq : q = []
  · subst hq
    simp [Ne.symm hp]
  · rw [get?_of_ne hq, get?_of_ne hq, put, List.lookup_cons]
    by_cases hqp : q = p
    · simp [hqp]
    · rw [beq_false_of_ne hqp, if_neg hqp, lookup_filter fun _ => by simpa using hqp]

theorem get?_erase (hp : p ≠ []) : (fs.erase p).get? q = if q = p then none else fs.get? q := by
  by_cases hq : q = []
  · subst hq
    simp [Ne.symm hp]
  · rw [get?_of_ne hq, get?_of_ne hq, erase]
    by_cases hqp : q = p
    · rw [if_pos hqp, lookup_filter_none fun _ => by simp [hqp]]
    · rw [if_neg hqp, lookup_filter fun _ => by simpa using hqp]

theorem get?_eraseTree (hq : q ≠ []) :
    (fs.eraseTree p).get? q = if p <+: q then none else fs.get? q := by
  rw [get?_of_ne hq, get?_of_ne hq, eraseTree]
  by_cases hpq : p <+: q
  · rw [if_pos hpq, lookup_filter_none fun _ => by simpa using hpq]
  · rw [if_neg hpq, lookup_filter fun _ => by simpa [Bool.eq_false_iff] using hpq]

theorem get?_mapFile (id : Nat) (f : Nat × List UInt8 → Nat × List UInt8) (q : Place) :
    (fs.mapFile id f).get? q = (fs.get? q).map (Entry.mapFile id f) := by
  by_cases hq : q = []
  · subst hq
    rfl
  · rw [get?_of_ne hq, get?_of_ne hq, mapFile]
    induction fs.entries with
    | nil => rfl
    | cons x l ih =>
      obtain ⟨p, e⟩ := x
      rw [List.map_cons, List.lookup_cons, List.lookup_cons, ih]
      cases q == p <;> rfl

theorem isDirAt_iff : fs.isDirAt p = true ↔ ∃ mode, fs.get? p = some (.dir mode) := by
  rw [isDirAt]
  cases fs.get? p with
  | none => simp
  | some e => simp [Entry.isDir_iff]

theorem isDirAt_mapFile (id : Nat) (f : Nat × List UInt8 → Nat × List UInt8) (q : Place) :
    (fs.mapFile id f).isDirAt q = fs.isDirAt q := by
  rw [isDirAt, isDirAt, get?_mapFile]
  cases fs.get? q <;> simp

@[simp] theorem isDirAt_root : fs.isDirAt [] = true := rfl

/-! ## The invariant -/

/-- What holds of every file system that an operating system shows. -/
structure WellFormed (fs : FileSystem) : Prop where
  nodup : (fs.entries.map Prod.fst).Nodup
  parent : ∀ x ∈ fs.entries, x.1 ≠ [] ∧ fs.isDirAt x.1.dropLast = true
  name : ∀ x ∈ fs.entries, ∀ n ∈ x.1, IsName n
  fresh : ∀ x ∈ fs.entries, (x.2.fileId?.all fun id => id < fs.next) = true

theorem wellFormed_iff (fs : FileSystem) : fs.WellFormed ↔
    (fs.entries.map Prod.fst).Nodup ∧
      (∀ x ∈ fs.entries, x.1 ≠ [] ∧ fs.isDirAt x.1.dropLast = true) ∧
      (∀ x ∈ fs.entries, ∀ n ∈ x.1, IsName n) ∧
      ∀ x ∈ fs.entries, (x.2.fileId?.all fun id => id < fs.next) = true :=
  ⟨fun h => ⟨h.1, h.2, h.3, h.4⟩, fun ⟨h1, h2, h3, h4⟩ => ⟨h1, h2, h3, h4⟩⟩

instance (fs : FileSystem) : Decidable fs.WellFormed := decidable_of_iff _ (wellFormed_iff fs).symm

/-- No file stands at two places. -/
def SingleNamed (fs : FileSystem) : Prop :=
  ∀ x ∈ fs.entries, ∀ y ∈ fs.entries, x.2.fileId? = y.2.fileId? → x.2.fileId? ≠ none → x.1 = y.1

instance (fs : FileSystem) : Decidable fs.SingleNamed := by unfold SingleNamed; infer_instance

theorem mem_entries (hp : p ≠ []) (h : fs.get? p = some e) : (p, e) ∈ fs.entries := by
  rw [get?_of_ne hp] at h
  exact mem_of_lookup h

theorem SingleNamed.eq {id : Nat} {m m' : Nat} {bytes bytes' : List UInt8} (h : fs.SingleNamed)
    (hp : fs.get? p = some (.file id m bytes)) (hq : fs.get? q = some (.file id m' bytes')) :
    p = q := by
  have hpne : p ≠ [] := fun hnil => by simp [hnil] at hp
  have hqne : q ≠ [] := fun hnil => by simp [hnil] at hq
  exact h _ (mem_entries hpne hp) _ (mem_entries hqne hq) rfl (by simp [Entry.fileId?])

namespace WellFormed

theorem get?_of_mem (h : fs.WellFormed) (hx : (p, e) ∈ fs.entries) : fs.get? p = some e := by
  rw [get?_of_ne (h.parent _ hx).1]
  exact lookup_of_mem h.nodup hx

theorem isDirAt_parent (h : fs.WellFormed) (hp : p ≠ []) (he : fs.get? p = some e) :
    fs.isDirAt p.dropLast = true := (h.parent _ (mem_entries hp he)).2

/-- Above a directory there is a directory. -/
theorem isDirAt_dropLast (h : fs.WellFormed) (hp : fs.isDirAt p = true) :
    fs.isDirAt p.dropLast = true := by
  by_cases hnil : p = []
  · rwa [hnil] at hp ⊢
  · obtain ⟨m, hm⟩ := isDirAt_iff.mp hp
    exact h.isDirAt_parent hnil hm

theorem isName (h : fs.WellFormed) (he : fs.get? p = some e) : ∀ n ∈ p, IsName n := by
  by_cases hp : p = []
  · simp [hp]
  · exact h.name _ (mem_entries hp he)

theorem plainPlace (h : fs.WellFormed) (he : fs.get? p = some e) : PlainPlace p :=
  fun n hn => (h.isName he n hn).toPlainName

theorem id_lt (h : fs.WellFormed) {id mode : Nat} {bytes : List UInt8}
    (he : fs.get? p = some (.file id mode bytes)) : id < fs.next := by
  have hp : p ≠ [] := fun hnil => by simp [hnil] at he
  simpa [Entry.fileId?] using h.fresh _ (mem_entries hp he)

/-- All that is above an entry is a directory. -/
theorem isDirAt_of_append (h : fs.WellFormed) {r : Place} (hr : r ≠ [])
    (he : fs.get? (p ++ r) = some e) : fs.isDirAt p = true := by
  induction r using List.reverseRecOn generalizing e with
  | nil => exact absurd rfl hr
  | append_singleton r n ih =>
    have hdir : fs.isDirAt (p ++ r) = true := by
      have hd := h.isDirAt_parent (by simp) he
      rwa [← List.append_assoc, List.dropLast_concat] at hd
    by_cases hnil : r = []
    · rwa [hnil, List.append_nil] at hdir
    · obtain ⟨m, hm⟩ := isDirAt_iff.mp hdir
      exact ih hnil hm

/-- Below what is no directory there is nothing. -/
theorem get?_append_eq_none (h : fs.WellFormed) {r : Place} (hr : r ≠ [])
    (hp : fs.isDirAt p = false) : fs.get? (p ++ r) = none := by
  cases he : fs.get? (p ++ r) with
  | none => rfl
  | some e => rw [h.isDirAt_of_append hr he] at hp; cases hp

/-! ## Updates keep the invariant -/

theorem raise (h : fs.WellFormed) {k : Nat} (hk : fs.next ≤ k) :
    WellFormed { fs with next := k } where
  nodup := h.nodup
  parent := h.parent
  name := h.name
  fresh x hx := by
    have hid := h.fresh x hx
    cases hi : x.2.fileId? with
    | none => rfl
    | some id =>
      rw [hi] at hid
      simp only [Option.all_some, decide_eq_true_eq] at hid ⊢
      omega

theorem put (h : fs.WellFormed) {d : Place} {n : String} (hd : fs.isDirAt d = true)
    (hn : IsName n) (hv : fs.get? (d ++ [n]) = none)
    (hid : (e.fileId?.all fun id => id < fs.next) = true) : (fs.put (d ++ [n]) e).WellFormed := by
  have hne : d ++ [n] ≠ [] := by simp
  have hold : ∀ x ∈ fs.entries, x.1 ≠ d ++ [n] := by
    intro x hx heq
    have hget := h.get?_of_mem (p := x.1) (e := x.2) hx
    rw [heq, hv] at hget
    cases hget
  have hdir : ∀ q, fs.isDirAt q = true → (fs.put (d ++ [n]) e).isDirAt q = true := by
    intro q hq
    obtain ⟨m, hm⟩ := isDirAt_iff.mp hq
    refine isDirAt_iff.mpr ⟨m, ?_⟩
    rw [get?_put hne, if_neg, hm]
    rintro rfl
    rw [hv] at hm
    cases hm
  have hentries : (fs.put (d ++ [n]) e).entries = (d ++ [n], e) :: fs.entries := by
    rw [FileSystem.put, List.filter_eq_self.mpr]
    intro x hx
    simpa using hold x hx
  obtain ⟨m, hm⟩ := isDirAt_iff.mp hd
  refine ⟨?_, ?_, ?_, ?_⟩
  · rw [hentries, List.map_cons, List.nodup_cons]
    refine ⟨fun hmem => ?_, h.nodup⟩
    obtain ⟨x, hx, heq⟩ := List.mem_map.mp hmem
    exact hold x hx heq
  · rw [hentries, List.forall_mem_cons]
    refine ⟨⟨hne, ?_⟩, fun x hx => ⟨(h.parent x hx).1, hdir _ (h.parent x hx).2⟩⟩
    rw [List.dropLast_concat]
    exact hdir d hd
  · rw [hentries, List.forall_mem_cons]
    refine ⟨fun k hk => ?_, h.name⟩
    rcases List.mem_append.mp hk with hk | hk
    · exact h.isName hm k hk
    · rwa [List.mem_singleton.mp hk]
  · rw [hentries, List.forall_mem_cons]
    exact ⟨hid, h.fresh⟩

theorem putNewFile (h : fs.WellFormed) {d : Place} {n : String} (hd : fs.isDirAt d = true)
    (hn : IsName n) (hv : fs.get? (d ++ [n]) = none) (mode : Nat) :
    (fs.putNewFile (d ++ [n]) mode).WellFormed :=
  (h.raise (Nat.le_succ fs.next)).put hd hn hv (by simp [Entry.fileId?])

theorem mapFile (h : fs.WellFormed) (id : Nat) (f : Nat × List UInt8 → Nat × List UInt8) :
    (fs.mapFile id f).WellFormed := by
  have hmem : ∀ x ∈ (fs.mapFile id f).entries, ∃ y ∈ fs.entries, x = (y.1, y.2.mapFile id f) := by
    intro x hx
    obtain ⟨y, hy, rfl⟩ := List.mem_map.mp hx
    exact ⟨y, hy, rfl⟩
  refine ⟨?_, ?_, ?_, ?_⟩
  · have hkeys : (fs.mapFile id f).entries.map Prod.fst = fs.entries.map Prod.fst := by
      simp [FileSystem.mapFile, Function.comp_def]
    rw [hkeys]
    exact h.nodup
  · intro x hx
    obtain ⟨y, hy, rfl⟩ := hmem x hx
    rw [isDirAt_mapFile]
    exact h.parent y hy
  · intro x hx
    obtain ⟨y, hy, rfl⟩ := hmem x hx
    exact h.name y hy
  · intro x hx
    obtain ⟨y, hy, rfl⟩ := hmem x hx
    rw [Entry.fileId?_mapFile]
    exact h.fresh y hy

/-- Entries may go as long as no directory does that still holds one. -/
theorem filter (h : fs.WellFormed) {keep : Place × Entry → Bool}
    (hkeep : ∀ x ∈ fs.entries, keep x = true → x.1.dropLast ≠ [] →
      ∀ e, keep (x.1.dropLast, e) = true) :
    WellFormed { fs with entries := fs.entries.filter keep } := by
  refine ⟨h.nodup.sublist (List.filter_sublist.map _), ?_, ?_, ?_⟩
  · intro x hx
    obtain ⟨hx, hk⟩ := List.mem_filter.mp hx
    refine ⟨(h.parent x hx).1, ?_⟩
    by_cases hnil : x.1.dropLast = []
    · rw [hnil]
      rfl
    · have hd := (h.parent x hx).2
      rw [isDirAt, get?_of_ne hnil] at hd ⊢
      rwa [lookup_filter (hkeep x hx hk hnil)]
  · exact fun x hx => h.name x (List.mem_filter.mp hx).1
  · exact fun x hx => h.fresh x (List.mem_filter.mp hx).1

theorem erase (h : fs.WellFormed) (hp : fs.isDirAt p = false) : (fs.erase p).WellFormed := by
  refine h.filter fun x hx _ _ e => ?_
  have hne : x.1.dropLast ≠ p := fun heq => by
    have hd := (h.parent x hx).2
    rw [heq, hp] at hd
    cases hd
  simpa using hne

theorem eraseTree (h : fs.WellFormed) (p : Place) : (fs.eraseTree p).WellFormed := by
  refine h.filter fun x hx hk _ e => ?_
  have hxp : ¬ p <+: x.1 := by simpa [← List.isPrefixOf_iff_prefix] using hk
  have hdrop : ¬ p <+: x.1.dropLast := fun hpre => hxp (hpre.trans (List.dropLast_prefix x.1))
  simpa [Bool.eq_false_iff] using hdrop

end WellFormed

end FileSystem

end CodeIndex

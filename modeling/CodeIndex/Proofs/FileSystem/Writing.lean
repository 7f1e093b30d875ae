import CodeIndex.Proofs.FileSystem.Directories
import CodeIndex.Proofs.FileSystem.Straight

/-!
# Opening and writing files

* `openWrite_eq_ok` : opening for writing makes a file at a free place, empties the one that is
  there, or finds a device;
* `WellFormed.openWrite`, `WellFormed.write` : the file system stays well-formed;
* `lookup_of_openWrite`, `lookup_write` : the path that was opened leads to what is written;
* `copyFile_of_vacant` : copying a file to a free place changes nothing else.
-/

namespace CodeIndex.FileSystem

variable {fs gs : FileSystem} {cwd p q : Place} {path source target : Path} {sink : OpenFile}
  {mode : Nat} {bytes : List UInt8}

theorem openWrite_eq_ok (h : fs.openWrite cwd path mode = .ok (gs, sink)) :
    (∃ d n, fs.lookup cwd path true = .ok (.vacant (d ++ [n])) ∧ fs.isDirAt d = true ∧ IsName n ∧
      fs.get? (d ++ [n]) = none ∧ gs = fs.putNewFile (d ++ [n]) mode ∧ sink = .file fs.next) ∨
    (∃ p id m bytes, fs.lookup cwd path true = .ok (.entry p (.file id m bytes)) ∧
      gs = fs.truncate id ∧ sink = .file id) ∨
    (∃ p kind, fs.lookup cwd path true = .ok (.entry p (.device kind)) ∧ gs = fs ∧
      sink = .discard) := by
  unfold openWrite at h
  dsimp only at h
  split at h
  · simp at h
  · next found hfound =>
    split at h
    · simp at h
    · next hbare =>
      rw [not_not] at hbare
      rw [hbare] at hfound
      split at h
      · next p =>
        cases h
        obtain ⟨d, n, rfl, hd, hn, hv⟩ := vacant_of_lookup hfound
        exact Or.inl ⟨d, n, hfound, hd, hn, hv, rfl, rfl⟩
      · next p id m bytes =>
        cases h
        exact Or.inr (Or.inl ⟨p, id, m, bytes, hfound, rfl, rfl⟩)
      · next p kind =>
        cases h
        exact Or.inr (Or.inr ⟨p, kind, hfound, rfl, rfl⟩)
      · simp at h

theorem get?_putNewFile (hp : p ≠ []) :
    (fs.putNewFile p mode).get? q = if q = p then some (.file fs.next mode []) else fs.get? q := by
  have h : (fs.putNewFile p mode).get? q = (fs.put p (.file fs.next mode [])).get? q := by
    cases q <;> rfl
  rw [h, get?_put hp]

theorem get?_truncate (id : Nat) (q : Place) : (fs.truncate id).get? q =
    (fs.get? q).map (Entry.mapFile id fun x => (x.1, [])) := get?_mapFile id _ q

theorem get?_append (id : Nat) (bytes : List UInt8) (q : Place) : (fs.append id bytes).get? q =
    (fs.get? q).map (Entry.mapFile id fun x => (x.1, x.2 ++ bytes)) := get?_mapFile id _ q

/-- An entry that is not the file meant is as before. -/
theorem get?_mapFile_of_ne {id : Nat} {f : Nat × List UInt8 → Nat × List UInt8} {q : Place}
    (h : ∀ e, fs.get? q = some e → e.fileId? ≠ some id) : (fs.mapFile id f).get? q = fs.get? q := by
  rw [get?_mapFile]
  cases he : fs.get? q with
  | none => rfl
  | some e => rw [Option.map_some, Entry.mapFile_of_ne (h e he)]

theorem WellFormed.openWrite (hw : fs.WellFormed)
    (h : fs.openWrite cwd path mode = .ok (gs, sink)) : gs.WellFormed := by
  rcases openWrite_eq_ok h with ⟨d, n, -, hd, hn, hv, rfl, -⟩ | ⟨p, id, m, bytes, -, rfl, -⟩ |
    ⟨p, kind, -, rfl, -⟩
  · exact hw.putNewFile hd hn hv mode
  · exact hw.mapFile _ _
  · exact hw

theorem WellFormed.write (hw : fs.WellFormed) (sink : OpenFile) (bytes : List UInt8) :
    (fs.write sink bytes).WellFormed := by
  cases sink with
  | file id => exact hw.mapFile _ _
  | discard => exact hw

/-- Writing leaves everything but files in place. -/
theorem get?_write_of_some {x : Entry} (hx : fs.get? q = some x) (hid : x.fileId? = none)
    (sink : OpenFile) (bytes : List UInt8) : (fs.write sink bytes).get? q = some x := by
  cases sink with
  | file id => rw [write, get?_append, hx, Option.map_some, Entry.mapFile_of_ne (by simp [hid])]
  | discard => exact hx

/-! ## Paths of files that change -/

/-- A walk comes to the file that was there when the bytes of a file change. -/
theorem Finds.mapFile {follow : Bool} {k : Nat} {d : Place} {ns : List String} {e : Entry}
    (h : fs.Finds follow k d ns (.entry p e)) (id : Nat) (f : Nat × List UInt8 → Nat × List UInt8) :
    (fs.mapFile id f).Finds follow k d ns (.entry p (e.mapFile id f)) := by
  have hdir : ∀ {q}, fs.isDirAt q = true → (fs.mapFile id f).isDirAt q = true := fun hq => by
    rwa [isDirAt_mapFile]
  have hget : ∀ {q x}, fs.get? q = some x → (fs.mapFile id f).get? q = some (x.mapFile id f) :=
    fun hx => by rw [get?_mapFile, hx, Option.map_some]
  generalize hr : Found.entry p e = r at h
  induction h with
  | here he =>
    obtain ⟨rfl, rfl⟩ := Found.entry.inj hr
    exact .here (hget he)
  | current hd hdot _ ih => exact .current (hdir hd) hdot (ih hr)
  | parent hd hdots _ ih => exact .parent (hdir hd) hdots (ih hr)
  | vacant => cases hr
  | unfollowed hff hd h1 h2 h3 ht =>
    obtain ⟨rfl, rfl⟩ := Found.entry.inj hr
    exact .unfollowed hff (hdir hd) h1 h2 h3 (hget ht)
  | enter hd h1 h2 h3 he hnl _ ih =>
    exact .enter (hdir hd) h1 h2 h3 (hget he) (by simpa using hnl) (ih hr)
  | link hns hd h1 h2 h3 ht _ ih => exact .link hns (hdir hd) h1 h2 h3 (hget ht) (ih hr)

theorem lookup_mapFile {follow : Bool} {e : Entry}
    (h : fs.lookup cwd path follow = .ok (.entry p e)) (id : Nat)
    (f : Nat × List UInt8 → Nat × List UInt8) :
    (fs.mapFile id f).lookup cwd path follow = .ok (.entry p (e.mapFile id f)) := by
  obtain ⟨hne, hlen, k, hk, hf⟩ := lookup_eq_ok_iff.mp h
  exact lookup_eq_ok_iff.mpr ⟨hne, hlen, k, hk, hf.mapFile id f⟩

/-- A path that has been opened leads to what is open: a file without bytes, or a device. -/
theorem lookup_of_openWrite (h : fs.openWrite cwd path mode = .ok (gs, sink)) :
    (∃ q id m, sink = .file id ∧ gs.lookup cwd path true = .ok (.entry q (.file id m []))) ∨
    ∃ q kind, sink = .discard ∧ gs.lookup cwd path true = .ok (.entry q (.device kind)) := by
  rcases openWrite_eq_ok h with ⟨d, n, hvacant, -, -, hv, rfl, rfl⟩ |
    ⟨q, id, m, bytes, hq, rfl, rfl⟩ | ⟨q, kind, hq, rfl, rfl⟩
  · have hput : ∀ r, (fs.putNewFile (d ++ [n]) mode).get? r =
        if r = d ++ [n] then some (.file fs.next mode []) else fs.get? r :=
      fun r => get?_putNewFile (by simp)
    refine Or.inl ⟨d ++ [n], fs.next, mode, rfl, lookup_fill hvacant (fun r x hx => ?_)
      (by rw [hput, if_pos rfl]) rfl⟩
    have hne : r ≠ d ++ [n] := fun heq => by
      rw [heq, hv] at hx
      cases hx
    rw [hput, if_neg hne, hx]
  · refine Or.inl ⟨q, id, m, rfl, ?_⟩
    have hled := lookup_mapFile hq id fun x => (x.1, [])
    rwa [Entry.mapFile, if_pos rfl] at hled
  · exact Or.inr ⟨q, kind, rfl, hq⟩

/-- What is written to a file that is open without bytes is what it holds. -/
theorem lookup_write {q : Place} {id m : Nat}
    (h : fs.lookup cwd path true = .ok (.entry q (.file id m []))) (bytes : List UInt8) :
    (fs.write (.file id) bytes).lookup cwd path true = .ok (.entry q (.file id m bytes)) := by
  have hled := lookup_mapFile h id fun x => (x.1, x.2 ++ bytes)
  rwa [Entry.mapFile, if_pos rfl] at hled

/-- Writing leaves what a path names where it is, and does not change its kind. -/
theorem exists_lookup_write {follow : Bool} {e : Entry}
    (h : fs.lookup cwd path follow = .ok (.entry p e)) (sink : OpenFile) (bytes : List UInt8) :
    ∃ x, (fs.write sink bytes).lookup cwd path follow = .ok (.entry p x) ∧ x.isDir = e.isDir ∧
      x.isLink = e.isLink := by
  cases sink with
  | file id => exact ⟨_, lookup_mapFile h id _, Entry.isDir_mapFile id _ e, Entry.isLink_mapFile id _ e⟩
  | discard => exact ⟨e, h, rfl, rfl⟩

/-! ## Copying to a free place -/

/-- No file has the identity that is given next. -/
theorem WellFormed.get?_mapFile_next (hw : fs.WellFormed)
    (f : Nat × List UInt8 → Nat × List UInt8) (q : Place) :
    (fs.mapFile fs.next f).get? q = fs.get? q := by
  refine get?_mapFile_of_ne fun e he hid => ?_
  cases e with
  | file id m bs =>
    have hlt := hw.id_lt he
    rw [Entry.fileId?, Option.some.injEq] at hid
    omega
  | _ => cases hid

/-- What is written to a new file changes nothing else. -/
theorem get?_mapFile_putNewFile {f : Nat × List UInt8 → Nat × List UInt8} (hw : fs.WellFormed)
    (hp : p ≠ []) : ((fs.putNewFile p mode).mapFile fs.next f).get? q =
      if q = p then some (.file fs.next (f (mode, [])).1 (f (mode, [])).2) else fs.get? q := by
  rw [get?_mapFile, get?_putNewFile hp]
  by_cases hq : q = p
  · rw [if_pos hq, if_pos hq, Option.map_some, Entry.mapFile, if_pos rfl]
  · rw [if_neg hq, if_neg hq, ← get?_mapFile, hw.get?_mapFile_next]

theorem openWrite_of_vacant (hend : withoutEndSlashes path = path)
    (h : fs.lookup cwd path true = .ok (.vacant p)) :
    fs.openWrite cwd path mode = .ok (fs.putNewFile p mode, .file fs.next) := by
  unfold openWrite
  simp [hend, h]

/-- Copying a file to a free place makes one that is like it and changes nothing else. -/
theorem copyFile_of_vacant (hw : fs.WellFormed) {id : Nat}
    (hsource : fs.stat cwd source true = .ok (p, .file id mode bytes))
    (hend : withoutEndSlashes target = target)
    (htarget : fs.lookup cwd target true = .ok (.vacant q)) :
    ∃ gs, fs.copyFile cwd source target = .ok gs ∧ gs.WellFormed ∧
      ∀ r, gs.get? r = if r = q then some (.file fs.next mode bytes) else fs.get? r := by
  obtain ⟨d, n, hq, hd, hn, hv⟩ := vacant_of_lookup htarget
  have hqne : q ≠ [] := by simp [hq]
  have hnew : (fs.putNewFile q mode).WellFormed := by
    rw [hq] at hv ⊢
    exact hw.putNewFile hd hn hv mode
  have hwritten : ∀ r, ((fs.putNewFile q mode).append fs.next bytes).get? r =
      if r = q then some (.file fs.next mode bytes) else fs.get? r := fun r => by
    rw [append, get?_mapFile_putNewFile hw hqne]
    rfl
  have hled : ((fs.putNewFile q mode).append fs.next bytes).lookup cwd target true =
      .ok (.entry q (.file fs.next mode bytes)) := by
    refine lookup_fill htarget (fun r x hx => ?_) (by rw [hwritten, if_pos rfl]) rfl
    have hne : r ≠ q := fun heq => by
      rw [heq, hv] at hx
      cases hx
    rw [hwritten, if_neg hne, hx]
  refine ⟨((fs.putNewFile q mode).append fs.next bytes).mapFile fs.next
    fun x => (mode, x.2), ?_, (hnew.mapFile _ _).mapFile _ _, fun r => ?_⟩
  · unfold copyFile
    rw [hsource]
    dsimp only
    rw [openWrite_of_vacant hend htarget]
    dsimp only
    rw [write, setMode, stat_eq_ok_iff.mpr hled]
  · rw [get?_mapFile, hwritten]
    by_cases hr : r = q
    · rw [if_pos hr, Option.map_some, Entry.mapFile, if_pos rfl]
    · rw [if_neg hr, ← get?_mapFile, hw.get?_mapFile_next]

end CodeIndex.FileSystem

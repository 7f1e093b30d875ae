import CodeIndex.FileSystem.Update
import CodeIndex.Proofs.FileSystem.Finds

/-!
# Making directories

* `DirsAdded` : nothing has changed but for new directories;
* `createDir_eq_ok`, `ensureDir_eq_ok` : what making one directory does;
* `dirsAdded_createDirs` : making a directory and those above it adds directories only, however
  far it comes;
* `WellFormed.createDirs` : and the file system stays well-formed.
-/

namespace CodeIndex.FileSystem

/-- Nothing has changed but for new directories. -/
structure DirsAdded (fs gs : FileSystem) : Prop where
  get?_eq_or : ∀ q, gs.get? q = fs.get? q ∨
    fs.get? q = none ∧ gs.get? q = some (.dir dirMode)
  next_eq : gs.next = fs.next

namespace DirsAdded

variable {fs gs hs : FileSystem}

theorem refl (fs : FileSystem) : DirsAdded fs fs := ⟨fun _ => Or.inl rfl, rfl⟩

theorem trans (h : DirsAdded fs gs) (h' : DirsAdded gs hs) : DirsAdded fs hs := by
  refine ⟨fun q => ?_, h'.next_eq.trans h.next_eq⟩
  rcases h.get?_eq_or q with hq | ⟨hq, hq'⟩
  · rw [← hq]
    exact h'.get?_eq_or q
  · rcases h'.get?_eq_or q with hr | ⟨hr, -⟩
    · exact Or.inr ⟨hq, hr.trans hq'⟩
    · rw [hr] at hq'
      cases hq'

/-- What was there is there. -/
theorem get?_eq (h : DirsAdded fs gs) {q : Place} {e : Entry} (he : fs.get? q = some e) :
    gs.get? q = some e := by
  rcases h.get?_eq_or q with hq | ⟨hq, -⟩
  · rw [hq, he]
  · rw [hq] at he
    cases he

theorem put {p : Place} (hp : p ≠ []) (hv : fs.get? p = none) :
    DirsAdded fs (fs.put p (.dir dirMode)) := by
  refine ⟨fun q => ?_, rfl⟩
  rw [get?_put hp]
  by_cases hq : q = p
  · subst hq
    exact Or.inr ⟨hv, if_pos rfl⟩
  · exact Or.inl (if_neg hq)

end DirsAdded

variable {fs gs : FileSystem} {cwd : Place} {path : Path}

/-- Making a directory fills a free place in a directory. -/
theorem createDir_eq_ok {mode : Nat} (h : fs.createDir cwd path mode = .ok gs) :
    ∃ d n, fs.lookup cwd (withoutEndSlashes path) false = .ok (.vacant (d ++ [n])) ∧
      fs.isDirAt d = true ∧ IsName n ∧ fs.get? (d ++ [n]) = none ∧
      gs = fs.put (d ++ [n]) (.dir mode) := by
  unfold createDir at h
  split at h
  · next p hp =>
    obtain ⟨d, n, rfl, hd, hn, hv⟩ := vacant_of_lookup hp
    exact ⟨d, n, hp, hd, hn, hv, (Except.ok.inj h).symm⟩
  · simp at h
  · simp at h

theorem ensureDir_eq_ok (h : fs.ensureDir cwd path = .ok gs) :
    fs.createDir cwd path dirMode = .ok gs ∨ fs.isDir cwd path = true ∧ gs = fs := by
  unfold ensureDir at h
  split at h
  · next hc => exact Or.inl (by rw [hc, h])
  · split at h
    · next hd => exact Or.inr ⟨hd, (Except.ok.inj h).symm⟩
    · simp at h

theorem dirsAdded_ensureDir (h : fs.ensureDir cwd path = .ok gs) : DirsAdded fs gs := by
  rcases ensureDir_eq_ok h with hc | ⟨-, rfl⟩
  · obtain ⟨d, n, -, -, -, hv, rfl⟩ := createDir_eq_ok hc
    exact DirsAdded.put (by simp) hv
  · exact DirsAdded.refl _

theorem WellFormed.ensureDir (hw : fs.WellFormed) (h : fs.ensureDir cwd path = .ok gs) :
    gs.WellFormed := by
  rcases ensureDir_eq_ok h with hc | ⟨-, rfl⟩
  · obtain ⟨d, n, -, hd, hn, hv, rfl⟩ := createDir_eq_ok hc
    exact hw.put hd hn hv rfl
  · exact hw

/-- What holds before, and is kept by making one directory, holds when several have been made. -/
theorem createDirsOf_induction {P : FileSystem → Prop}
    (hstep : ∀ {fs gs : FileSystem} {path : Path}, P fs → fs.ensureDir cwd path = .ok gs → P gs)
    (paths : List Path) (hfs : P fs) : P (fs.createDirsOf cwd paths).1 := by
  induction paths with
  | nil => exact hfs
  | cons path ancestors ih =>
    unfold createDirsOf
    split
    · exact hfs
    · split
      · next gs hg => exact hstep hfs hg
      · next e he =>
        split
        · split
          · next gs e' hg => rwa [hg] at ih
          · next gs hg =>
            rw [hg] at ih
            split
            · next hs hh => exact hstep ih hh
            · exact ih
        · exact hfs

theorem dirsAdded_createDirs (fs : FileSystem) (cwd : Place) (path : Path) :
    DirsAdded fs (fs.createDirs cwd path).1 :=
  createDirsOf_induction (P := DirsAdded fs) (fun h hg => h.trans (dirsAdded_ensureDir hg)) _
    (DirsAdded.refl fs)

theorem WellFormed.createDirs (hw : fs.WellFormed) (cwd : Place) (path : Path) :
    (fs.createDirs cwd path).1.WellFormed :=
  createDirsOf_induction (P := WellFormed) (fun h hg => h.ensureDir hg) _ hw

end CodeIndex.FileSystem

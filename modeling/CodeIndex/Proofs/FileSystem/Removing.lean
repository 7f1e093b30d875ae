import CodeIndex.Proofs.FileSystem.Directories

/-!
# Removing entries

* `Removed` : what stood at a place and below it is gone, and nothing else;
* `removeFile_eq_ok`, `removeTree_eq_ok`, `removeEntry_eq_ok` : what is removed stood where the path
  leads when it is not followed.
-/

namespace CodeIndex.FileSystem

variable {fs gs : FileSystem} {cwd p q : Place} {path : Path} {e : Entry}

/-- What stood at a place and below it is gone, and nothing else. -/
structure Removed (fs gs : FileSystem) (p : Place) : Prop where
  wellFormed : gs.WellFormed
  get?_eq : ∀ q, gs.get? q = if p <+: q then none else fs.get? q

theorem Removed.get?_of_some (h : Removed fs gs p) (he : gs.get? q = some e) :
    fs.get? q = some e := by
  rw [h.get?_eq] at he
  split at he
  · cases he
  · exact he

theorem removed_eraseTree (hw : fs.WellFormed) (hp : p ≠ []) : Removed fs (fs.eraseTree p) p := by
  refine ⟨hw.eraseTree p, fun q => ?_⟩
  by_cases hq : q = []
  · subst hq
    simp [hp]
  · exact get?_eraseTree hq

theorem removed_erase (hw : fs.WellFormed) (hp : p ≠ []) (hdir : fs.isDirAt p = false) :
    Removed fs (fs.erase p) p := by
  refine ⟨hw.erase hdir, fun q => ?_⟩
  rw [get?_erase hp]
  by_cases hq : q = p
  · rw [if_pos hq, if_pos (hq ▸ List.prefix_refl q)]
  · rw [if_neg hq]
    split
    · next hpre =>
      obtain ⟨r, rfl⟩ := hpre
      exact hw.get?_append_eq_none (fun hnil => hq (by rw [hnil, List.append_nil])) hdir
    · rfl

/-- What is not a directory is not the root. -/
theorem ne_nil_of_isDir (he : fs.get? p = some e) (hdir : e.isDir = false) : p ≠ [] := by
  rintro rfl
  rw [get?_root] at he
  rw [← Option.some.inj he] at hdir
  cases hdir

theorem removeFile_eq_ok (h : fs.removeFile cwd path = .ok gs) :
    ∃ p e, fs.stat cwd path false = .ok (p, e) ∧ e.isDir = false ∧ gs = fs.erase p := by
  unfold removeFile at h
  split at h
  · cases h
  · next p e hdir hstat =>
    refine ⟨p, e, hstat, ?_, (Except.ok.inj h).symm⟩
    cases e with
    | dir m => exact (hdir m rfl).elim
    | _ => rfl
  · cases h

/-- What is not a directory can be removed. -/
theorem removeFile_of_lookup (h : fs.lookup cwd path false = .ok (.entry p e))
    (hdir : e.isDir = false) : fs.removeFile cwd path = .ok (fs.erase p) := by
  unfold removeFile
  rw [stat_eq_ok_iff.mpr h]
  cases e with
  | dir m => cases hdir
  | _ => rfl

theorem removeTree_eq_ok (h : fs.removeTree cwd path = .ok gs) :
    ∃ p e, fs.stat cwd path false = .ok (p, e) ∧
      (e.isDir = true ∧ gs = fs.eraseTree p ∨ e.isDir = false ∧ gs = fs.erase p) := by
  unfold removeTree at h
  split at h
  · next p m hstat => exact ⟨p, _, hstat, Or.inl ⟨rfl, (Except.ok.inj h).symm⟩⟩
  · next p t hstat => exact ⟨p, _, hstat, Or.inr ⟨rfl, (Except.ok.inj h).symm⟩⟩
  · cases h
  · cases h

theorem removed_of_stat {follow : Bool} (hw : fs.WellFormed) (hp : p ≠ [])
    (hstat : fs.stat cwd path follow = .ok (p, e))
    (h : e.isDir = true ∧ gs = fs.eraseTree p ∨ e.isDir = false ∧ gs = fs.erase p) :
    Removed fs gs p := by
  rcases h with ⟨-, rfl⟩ | ⟨hdir, rfl⟩
  · exact removed_eraseTree hw hp
  · refine removed_erase hw hp ?_
    rw [isDirAt, get?_of_lookup (stat_eq_ok_iff.mp hstat)]
    exact hdir

/-- Whatever is removed stood where the path leads. -/
theorem removeEntry_eq_ok (hw : fs.WellFormed) (h : fs.removeEntry cwd path = .ok gs) :
    ∃ p e, fs.stat cwd path false = .ok (p, e) ∧ (p ≠ [] → Removed fs gs p) := by
  unfold removeEntry at h
  split at h
  · obtain ⟨p, e, hstat, hgone⟩ := removeTree_eq_ok h
    exact ⟨p, e, hstat, fun hp => removed_of_stat hw hp hstat hgone⟩
  · obtain ⟨p, e, hstat, hdir, hgone⟩ := removeFile_eq_ok h
    exact ⟨p, e, hstat, fun hp => removed_of_stat hw hp hstat (Or.inr ⟨hdir, hgone⟩)⟩
  · cases h

end CodeIndex.FileSystem

import CodeIndex.Proofs.FileSystem.Ways

/-!
# Directories that stand

A directory that was made where nothing was stays, and so do the ways to it, as long as what runs
afterwards keeps to a place at it or below it.

* `KeepsOutside` : directories at a place and outside of it stay, and so do links outside of it;
* `KeepsWays.lookup_dir` : the paths of directories lead where they led;
* `Stands` : a new directory is there, and so are the ways that were there before it;
* `Stands.within`, `Stands.mono`, `Stands.erase` : what leaves a directory standing;
* `Stands.lookup`, `Stands.exists_removeTree`, `Stands.get?_of_removeTree` : the path of the new
  directory leads to it, and removes it.
-/

namespace CodeIndex.FileSystem

variable {fs gs hs : FileSystem} {cwd p q D W X : Place} {path : Path} {e : Entry} {m : Nat}

/-- Directories at a place and outside of it are directories still, and links outside of it are
still there. -/
structure KeepsOutside (fs gs : FileSystem) (W : Place) : Prop where
  isDirAt : ∀ q, (W <+: q → q = W) → fs.isDirAt q = true → gs.isDirAt q = true
  link : ∀ q t, ¬ W <+: q → fs.get? q = some (.link t) → gs.get? q = some (.link t)

namespace KeepsOutside

/-- What is neither a file nor below a place stays. -/
theorem of_keep (h : ∀ q x, (W <+: q → q = W) → fs.get? q = some x → x.fileId? = none →
    gs.get? q = some x) : KeepsOutside fs gs W where
  isDirAt q hq hd := by
    obtain ⟨m, hm⟩ := isDirAt_iff.mp hd
    exact isDirAt_iff.mpr ⟨m, h q _ hq hm rfl⟩
  link q t hq ht := h q _ (fun hpre => absurd hpre hq) ht rfl

/-- What changes is at a place where nothing was, or below it. -/
theorem of_below (hnew : fs.get? W = none) (h : ∀ q, gs.get? q ≠ fs.get? q → W <+: q) :
    KeepsOutside fs gs W := by
  refine of_keep fun q x hq hx _ => ?_
  rw [← hx]
  by_contra hchanged
  rw [hq (h q hchanged), hnew] at hx
  cases hx

end KeepsOutside

/-- Ways that were there before a directory stay if what changes is in the directory. -/
theorem KeepsWays.within (h : KeepsWays fs gs) (hnew : ∀ q, W <+: q → fs.get? q = none)
    (hkeep : KeepsOutside gs hs W) : KeepsWays fs hs where
  isDirAt q hq := by
    refine hkeep.isDirAt q (fun hpre => ?_) (h.isDirAt q hq)
    rw [FileSystem.isDirAt, hnew q hpre] at hq
    cases hq
  link {d n t k D m} ht hf := by
    refine hkeep.link (d ++ [n]) t (fun hpre => ?_) (h.link ht hf)
    rw [hnew _ hpre] at ht
    cases ht

/-- The path of a directory that was there leads to it still. -/
theorem KeepsWays.lookup_dir (h : KeepsWays fs gs)
    (hD : fs.lookup cwd path true = .ok (.entry D (.dir m))) :
    ∃ m', gs.lookup cwd path true = .ok (.entry D (.dir m')) := by
  obtain ⟨hne, hlen, k, hk, hf⟩ := lookup_eq_ok_iff.mp hD
  obtain ⟨m', hm'⟩ := h.finds hf
  exact ⟨m', lookup_eq_ok_iff.mpr ⟨hne, hlen, k, hk, hm'⟩⟩

/-- There is a directory at `X`, and the ways that were there before are there. -/
structure Stands (fs gs : FileSystem) (X : Place) : Prop where
  wellFormed : gs.WellFormed
  ways : KeepsWays fs gs
  isDirAt : gs.isDirAt X = true

namespace Stands

/-- A directory that is new stands while what changes is in it. -/
theorem within (h : Stands fs gs X) (hnew : ∀ q, X <+: q → fs.get? q = none) (hXW : X <+: W)
    (hwh : hs.WellFormed) (hkeep : KeepsOutside gs hs W) : Stands fs hs X where
  wellFormed := hwh
  ways := h.ways.within (fun q hq => hnew q (hXW.trans hq)) hkeep
  isDirAt := hkeep.isDirAt X (fun hpre => hXW.eq_of_length_le hpre.length_le) h.isDirAt

/-- A directory stands while nothing goes but files. -/
theorem mono (h : Stands fs gs X) (hwh : hs.WellFormed)
    (hkeep : ∀ q x, gs.get? q = some x → x.fileId? = none → hs.get? q = some x) :
    Stands fs hs X where
  wellFormed := hwh
  ways := h.ways.step fun q x _ hx hid => hkeep q x hx hid
  isDirAt := by
    obtain ⟨m, hm⟩ := isDirAt_iff.mp h.isDirAt
    exact isDirAt_iff.mpr ⟨m, hkeep X _ hm rfl⟩

/-- A directory stands when what holds no bytes is removed. -/
theorem erase (h : Stands fs gs X) (hstat : gs.stat cwd path false = .ok (p, e))
    (hdir : e.isDir = false) (hsize : gs.size cwd path = .ok 0) : Stands fs (gs.erase p) X := by
  have he := get?_of_lookup (stat_eq_ok_iff.mp hstat)
  have hp : gs.isDirAt p = false := by rw [FileSystem.isDirAt, he]; exact hdir
  have hX : X ≠ p := by
    rintro rfl
    rw [h.isDirAt] at hp
    cases hp
  refine ⟨h.wellFormed.erase hp, h.ways.erase h.wellFormed hstat hdir hsize, ?_⟩
  rw [FileSystem.isDirAt, get?_erase (ne_nil_of_isDir he hdir), if_neg hX]
  exact h.isDirAt

/-- The path of what was vacant leads to the directory. -/
theorem lookup (h : Stands fs gs X) (hv : fs.lookup cwd path false = .ok (.vacant X)) :
    ∃ m, gs.lookup cwd path true = .ok (.entry X (.dir m)) := by
  obtain ⟨hne, hlen, k, hk, hf⟩ := lookup_eq_ok_iff.mp hv
  obtain ⟨m, hm⟩ := h.ways.finds_of_vacant hf h.isDirAt true
  exact ⟨m, lookup_eq_ok_iff.mpr ⟨hne, hlen, k, hk, hm⟩⟩

/-- The path of what was vacant removes the directory. -/
theorem exists_removeTree (h : Stands fs gs X) (hv : fs.lookup cwd path false = .ok (.vacant X)) :
    ∃ hs, gs.removeTree cwd path = .ok hs := by
  obtain ⟨hne, hlen, k, hk, hf⟩ := lookup_eq_ok_iff.mp hv
  obtain ⟨m, hm⟩ := h.ways.finds_of_vacant hf h.isDirAt false
  have hstat : gs.stat cwd path false = .ok (X, .dir m) :=
    stat_eq_ok_iff.mpr (lookup_eq_ok_iff.mpr ⟨hne, hlen, k, hk, hm⟩)
  unfold removeTree
  rw [hstat]
  exact ⟨_, rfl⟩

/-- Removing the directory by the path that led to it leaves nothing there. -/
theorem get?_of_removeTree (h : Stands fs gs X)
    (hv : fs.lookup cwd (withoutEndSlashes path) false = .ok (.vacant X))
    (hgone : gs.removeTree cwd path = .ok hs) : hs.get? X = none := by
  obtain ⟨d, n, rfl, -, -, -⟩ := vacant_of_lookup hv
  obtain rfl := h.ways.removeTree h.isDirAt hv hgone
  rw [get?_eraseTree (by simp), if_pos (List.prefix_refl _)]

end Stands

end CodeIndex.FileSystem

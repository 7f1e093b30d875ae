import CodeIndex.Proofs.FileSystem.Removing
import CodeIndex.Proofs.FileSystem.Straight

/-!
# Ways that stay

A path leads to the same directory as long as the directories stay and so do the links that lead to
directories. Files may come and go, and so may what is in directories that are new.

* `KeepsWays` : the directories and the links to directories that were there are still there;
* `KeepsWays.finds` : walks to directories stay;
* `KeepsWays.removeTree` : a directory that was made where a path led is what the path removes;
* `KeepsWays.erase` : removing what holds no bytes keeps the ways.
-/

namespace CodeIndex.FileSystem

variable {fs gs hs : FileSystem} {follow : Bool} {k : Nat} {cwd d p F W : Place} {n : String}
  {ns : List String} {path : Path} {e : Entry}

/-- The directories that were there are there, and so are the links that led to directories. -/
structure KeepsWays (fs gs : FileSystem) : Prop where
  isDirAt : ∀ q, fs.isDirAt q = true → gs.isDirAt q = true
  link : ∀ {d n t k D m}, fs.get? (d ++ [n]) = some (.link t) →
    fs.Finds true k (origin d t) (steps t) (.entry D (.dir m)) →
    gs.get? (d ++ [n]) = some (.link t)

/-- A walk to a directory begins in one. -/
theorem Finds.isDirAt_start {D : Place} {m : Nat}
    (h : fs.Finds follow k d ns (.entry D (.dir m))) : fs.isDirAt d = true := by
  by_cases hns : ns = []
  · subst hns
    cases h with
    | here he => exact isDirAt_iff.mpr ⟨m, he⟩
  · exact h.isDirAt hns

namespace KeepsWays

theorem of_mono (h : ∀ q x, fs.get? q = some x → gs.get? q = some x) : KeepsWays fs gs where
  isDirAt q hq := by
    obtain ⟨m, hm⟩ := isDirAt_iff.mp hq
    exact isDirAt_iff.mpr ⟨m, h q _ hm⟩
  link ht _ := h _ _ ht

theorem refl (fs : FileSystem) : KeepsWays fs fs := of_mono fun _ _ h => h

/-- Only what is new may go, and files. -/
theorem step (h : KeepsWays fs gs)
    (hkeep : ∀ q x, fs.get? q ≠ none → gs.get? q = some x → x.fileId? = none →
      hs.get? q = some x) : KeepsWays fs hs where
  isDirAt q hq := by
    obtain ⟨m, hm⟩ := isDirAt_iff.mp hq
    obtain ⟨m', hm'⟩ := isDirAt_iff.mp (h.isDirAt q hq)
    exact isDirAt_iff.mpr ⟨m', hkeep q _ (by rw [hm]; exact Option.some_ne_none _) hm' rfl⟩
  link ht hf := hkeep _ _ (by rw [ht]; exact Option.some_ne_none _) (h.link ht hf) rfl

/-- What happens below a place where nothing was keeps the ways. -/
theorem below (h : KeepsWays fs gs) (hnew : ∀ q, W <+: q → fs.get? q = none)
    (hbelow : ∀ q, hs.get? q ≠ gs.get? q → W <+: q) : KeepsWays fs hs :=
  h.step fun q x hq hx _ => by
    have hsame : hs.get? q = gs.get? q := by
      by_contra hchanged
      exact hq (hnew q (hbelow q hchanged))
    rw [hsame, hx]

/-- Walks to directories stay. -/
theorem finds {D : Place} {m : Nat} (h : KeepsWays fs gs)
    (hf : fs.Finds true k d ns (.entry D (.dir m))) :
    ∃ m', gs.Finds true k d ns (.entry D (.dir m')) := by
  generalize hr : Found.entry D (.dir m) = r at hf
  induction hf with
  | here he =>
    obtain ⟨rfl, rfl⟩ := Found.entry.inj hr
    obtain ⟨m', hm'⟩ := isDirAt_iff.mp (h.isDirAt _ (isDirAt_iff.mpr ⟨m, he⟩))
    exact ⟨m', .here hm'⟩
  | current hd hdot _ ih =>
    obtain ⟨m', hm'⟩ := ih hr
    exact ⟨m', .current (h.isDirAt _ hd) hdot hm'⟩
  | parent hd hdots _ ih =>
    obtain ⟨m', hm'⟩ := ih hr
    exact ⟨m', .parent (h.isDirAt _ hd) hdots hm'⟩
  | vacant => cases hr
  | unfollowed hff => cases hff
  | @enter k d n ns e r hd h1 h2 h3 he hnl hf ih =>
    obtain ⟨m', hm'⟩ := ih hr
    rw [← hr] at hf
    obtain ⟨m'', hm''⟩ := isDirAt_iff.mp (h.isDirAt (d ++ [n]) hf.isDirAt_start)
    exact ⟨m', .enter (h.isDirAt _ hd) h1 h2 h3 hm'' rfl hm'⟩
  | @link k d n ns t r hns hd h1 h2 h3 ht hf ih =>
    obtain ⟨m', hm'⟩ := ih hr
    have hkept : gs.get? (d ++ [n]) = some (.link t) := by
      by_cases hnil : ns = []
      · rw [hnil, List.append_nil, ← hr] at hf
        exact h.link ht hf
      · obtain ⟨k₁, k₂, q, m₁, -, h₁, -⟩ := hf.split hnil
        exact h.link ht h₁
    exact ⟨m', .link hns (h.isDirAt _ hd) h1 h2 h3 hkept hm'⟩

/-- Where nothing was there is a directory now, and the walk leads to it. -/
theorem finds_of_vacant (h : KeepsWays fs gs) (hf : fs.Finds false k d ns (.vacant F))
    (hF : gs.isDirAt F = true) (follow : Bool) :
    ∃ m, gs.Finds follow k d ns (.entry F (.dir m)) := by
  obtain ⟨m, hm⟩ := isDirAt_iff.mp hF
  rcases List.eq_nil_or_concat ns with rfl | ⟨ms, n, rfl⟩
  · cases hf
  rw [List.concat_eq_append] at hf ⊢
  obtain ⟨k₁, k₂, D, m₁, rfl, h₁, h₂⟩ := hf.split (List.cons_ne_nil n [])
  obtain ⟨m₂, hm₂⟩ := h.finds h₁
  refine ⟨m, hm₂.append ?_ (List.cons_ne_nil n [])⟩
  cases h₂ with
  | current _ _ hf => cases hf
  | parent _ _ hf => cases hf
  | vacant _ h1 h2 h3 hv =>
    exact .enter (isDirAt_iff.mpr ⟨m₂, hm₂.get?_eq⟩) h1 h2 h3 hm rfl (.here hm)
  | enter _ _ _ _ _ _ hf => cases hf
  | link hns => exact absurd rfl (hns.resolve_left (by decide))

end KeepsWays

/-- What is vacant is so by its names alone. -/
theorem finds_namesOf_vacant (h : fs.lookup cwd path follow = .ok (.vacant p)) :
    ∃ k, fs.Finds follow k (origin cwd path) (namesOf path) (.vacant p) := by
  obtain ⟨-, -, k, -, hf⟩ := lookup_eq_ok_iff.mp h
  unfold steps at hf
  split at hf
  · obtain ⟨k₁, k₂, q, m, -, -, h₂⟩ := hf.split (List.cons_ne_nil "." [])
    cases h₂ with
    | current _ _ hf => cases hf
    | parent _ hdots => exact absurd hdots (by decide)
    | vacant _ hdot => exact absurd rfl hdot
    | enter _ hdot => exact absurd rfl hdot
    | link _ _ hdot => exact absurd rfl hdot
  · exact ⟨k, hf⟩

/-- A directory that was made where a path led is what the path removes. -/
theorem KeepsWays.removeTree (h : KeepsWays fs gs) (hF : gs.isDirAt F = true)
    (hv : fs.lookup cwd (withoutEndSlashes path) false = .ok (.vacant F))
    (hgone : gs.removeTree cwd path = .ok hs) : hs = gs.eraseTree F := by
  obtain ⟨k, hf⟩ := finds_namesOf_vacant hv
  rw [namesOf_withoutEndSlashes, origin_withoutEndSlashes] at hf
  obtain ⟨p, e, hstat, hend⟩ := removeTree_eq_ok hgone
  obtain ⟨-, -, k', -, hf'⟩ := lookup_eq_ok_iff.mp (stat_eq_ok_iff.mp hstat)
  have hplace : ∃ m, Found.entry p e = .entry F (.dir m) := by
    unfold steps at hf'
    split at hf'
    · obtain ⟨k₁, k₂, q, m, -, h₁, h₂⟩ := hf'.split (List.cons_ne_nil "." [])
      obtain ⟨m', hm'⟩ := h.finds_of_vacant hf hF true
      obtain ⟨rfl, -⟩ := Found.entry.inj (h₁.unique hm').2
      cases h₂ with
      | current _ _ h₂ =>
        cases h₂ with
        | here he =>
          rw [hm'.get?_eq] at he
          exact ⟨m', by rw [← Option.some.inj he]⟩
      | parent _ hdots => exact absurd hdots (by decide)
      | unfollowed _ _ hdot => exact absurd rfl hdot
      | enter _ hdot => exact absurd rfl hdot
      | link _ _ hdot => exact absurd rfl hdot
    · obtain ⟨m, hm⟩ := h.finds_of_vacant hf hF false
      exact ⟨m, (hf'.unique hm).2⟩
  obtain ⟨m, hm⟩ := hplace
  obtain ⟨rfl, rfl⟩ := Found.entry.inj hm
  rcases hend with ⟨-, rfl⟩ | ⟨hdir, -⟩
  · rfl
  · cases hdir

/-! ## Removing what holds no bytes -/

/-- Where a walk stops at a link, the walk that goes on follows it. -/
theorem Finds.of_link {k' k₂ : Nat} {t : Path} {r r' : Found} (hw : fs.WellFormed) (hns : ns ≠ [])
    (h : fs.Finds false k d ns (.entry (p ++ [n]) (.link t))) (h' : fs.Finds true k' d ns r')
    (ht : fs.Finds true k₂ (origin p t) (steps t) r) : r' = r := by
  obtain ⟨ms, l, rfl⟩ := (List.eq_nil_or_concat ns).resolve_left hns
  rw [List.concat_eq_append] at h h'
  obtain ⟨k₁, j₁, q, m, -, h₁, h₂⟩ := h.split (List.cons_ne_nil l [])
  obtain ⟨k₁', j₁', q', m', -, h₁', h₂'⟩ := h'.split (List.cons_ne_nil l [])
  obtain ⟨rfl, -⟩ := Found.entry.inj (h₁.unique h₁').2
  -- What ends with dots is a directory.
  have hdots : ¬ (l = "." ∨ l = "..") := fun hl => by cases h.isDir_of_dots hw hl
  generalize hplace : p ++ [n] = w at h₂
  cases h₂ with
  | current _ hdot => exact absurd (Or.inl hdot) hdots
  | parent _ hdotdot => exact absurd (Or.inr hdotdot) hdots
  | unfollowed _ _ h1 h2 _ he =>
    obtain ⟨rfl, -⟩ := List.append_inj' hplace rfl
    cases h₂' with
    | current _ hdot => exact absurd hdot h1
    | parent _ hdots => exact absurd hdots h2
    | vacant _ _ _ _ hv =>
      rw [he] at hv
      cases hv
    | unfollowed hff => cases hff
    | enter _ _ _ _ he' hnl =>
      obtain rfl := Option.some.inj (he.symm.trans he')
      cases hnl
    | link _ _ _ _ _ he' h₂' =>
      obtain rfl := Entry.link.inj (Option.some.inj (he.symm.trans he'))
      rw [List.append_nil] at h₂'
      exact (h₂'.unique ht).2
  | enter _ _ _ _ he hnl h₂ =>
    cases h₂ with
    | here he' =>
      obtain rfl := Option.some.inj (he.symm.trans he')
      cases hnl
  | link hns => exact absurd rfl (hns.resolve_left (by decide))

/-- Removing what holds no bytes keeps the ways. -/
theorem KeepsWays.erase (h : KeepsWays fs gs) (hw : gs.WellFormed)
    (hstat : gs.stat cwd path false = .ok (p, e)) (hdir : e.isDir = false)
    (hsize : gs.size cwd path = .ok 0) : KeepsWays fs (gs.erase p) := by
  have he := get?_of_lookup (stat_eq_ok_iff.mp hstat)
  have hp := ne_nil_of_isDir he hdir
  refine ⟨fun q hq => ?_, fun {d n t k D m} ht hf => ?_⟩
  · obtain ⟨m, hm⟩ := isDirAt_iff.mp (h.isDirAt q hq)
    refine isDirAt_iff.mpr ⟨m, ?_⟩
    rw [get?_erase hp, if_neg, hm]
    rintro rfl
    rw [he] at hm
    rw [Option.some.inj hm] at hdir
    cases hdir
  · rw [get?_erase hp, if_neg, h.link ht hf]
    rintro rfl
    -- The link would lead to a directory still, which has a size.
    obtain rfl := Option.some.inj ((h.link ht hf).symm.trans he)
    obtain ⟨m', hm'⟩ := h.finds hf
    unfold size at hsize
    cases hfull : gs.stat cwd path true with
    | error err =>
      rw [hfull] at hsize
      cases hsize
    | ok x =>
      obtain ⟨q, e'⟩ := x
      obtain ⟨hne, -, k₁, -, hf₁⟩ := lookup_eq_ok_iff.mp (stat_eq_ok_iff.mp hstat)
      obtain ⟨-, -, k₂, -, hf₂⟩ := lookup_eq_ok_iff.mp (stat_eq_ok_iff.mp hfull)
      obtain ⟨-, rfl⟩ := Found.entry.inj (hf₁.of_link hw (steps_ne_nil hne) hf₂ hm')
      rw [hfull] at hsize
      cases Except.ok.inj hsize

end CodeIndex.FileSystem

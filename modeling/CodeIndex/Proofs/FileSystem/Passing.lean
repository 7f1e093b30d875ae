import CodeIndex.Proofs.FileSystem.Ways
import CodeIndex.Proofs.Path.Ancestors

/-!
# What a walk passes

A path leads where it led as long as the places that its walk looks at are as they were. When a tree
is removed, exactly those paths lead to nothing any more that come by it.

* `Finds.short`, `Finds.dropDots` : the names of a walk, and those that do not matter;
* `lookup_eq_of_sameSteps` : paths of the same steps do not lead to different ends;
* `exists_unfollowed` : what a path names, and what it leads to;
* `Passes`, `ComesBy` : the places that a walk looks at;
* `Gone`, `gone_of_removeTree` : a tree is gone, and nothing else;
* `lookup_iff_of_gone` : what is found then is what was found on ways that do not come by the tree;
* `gone_of_removeFile`, `not_lookup_of_removeFile` : what removing a single entry leaves;
* `not_lookup_of_startsWith` : nothing is found by a path that is spelled below the one removed.
-/

namespace CodeIndex.FileSystem

variable {fs gs : FileSystem} {follow : Bool} {k : Nat} {cwd d p q F : Place} {n : String}
  {ns ms : List String} {path root : Path} {e : Entry} {r : Found}

/-! ## The names of a walk -/

/-- The names that are looked for are short enough for entries. -/
theorem Finds.short (h : fs.Finds follow k d ns r) (hn : n ∈ ns) (hdot : n ≠ ".")
    (hdots : n ≠ "..") : n.utf8ByteSize ≤ maxName := by
  induction h with
  | here => cases hn
  | current _ hcur _ ih =>
    rcases List.mem_cons.mp hn with rfl | hn
    · exact absurd hcur hdot
    · exact ih hn
  | parent _ hpar _ ih =>
    rcases List.mem_cons.mp hn with rfl | hn
    · exact absurd hpar hdots
    · exact ih hn
  | vacant _ _ _ hshort => rwa [List.mem_singleton.mp hn]
  | unfollowed _ _ _ _ hshort => rwa [List.mem_singleton.mp hn]
  | enter _ _ _ hshort _ _ _ ih =>
    rcases List.mem_cons.mp hn with rfl | hn
    · exact hshort
    · exact ih hn
  | link _ _ _ _ hshort _ _ ih =>
    rcases List.mem_cons.mp hn with rfl | hn
    · exact hshort
    · exact ih (List.mem_append_right _ hn)

/-- Some dots have been left out. -/
inductive Undotted : List String → List String → Prop
  | nil : Undotted [] []
  | cons {n : String} {ns ms : List String} : Undotted ns ms → Undotted (n :: ns) (n :: ms)
  | dot {ns ms : List String} : Undotted ns ms → Undotted ("." :: ns) ms

theorem Undotted.append (h : Undotted ns ms) : ∀ as, Undotted (as ++ ns) (as ++ ms)
  | [] => h
  | _ :: as => .cons (h.append as)

theorem undotted_filter : ∀ ns : List String, Undotted ns (ns.filter (· ≠ "."))
  | [] => .nil
  | n :: ns => by
    by_cases hn : n = "."
    · subst hn
      simpa using Undotted.dot (undotted_filter ns)
    · simpa [hn] using Undotted.cons (undotted_filter ns)

/-- A walk comes to the same end without some of its dots. -/
theorem Finds.undotted (h : fs.Finds true k d ns r) (hms : Undotted ns ms) :
    fs.Finds true k d ms r := by
  induction h generalizing ms with
  | here he =>
    cases hms
    exact .here he
  | current hd hdot _ ih =>
    cases hms with
    | cons hms => exact .current hd hdot (ih hms)
    | dot hms => exact ih hms
  | parent hd hdots _ ih =>
    cases hms with
    | cons hms => exact .parent hd hdots (ih hms)
    | dot => exact absurd hdots (by decide)
  | vacant hd h1 h2 h3 hv =>
    cases hms with
    | cons hms =>
      cases hms
      exact .vacant hd h1 h2 h3 hv
    | dot => exact absurd rfl h1
  | unfollowed hff => cases hff
  | enter hd h1 h2 h3 he hnl _ ih =>
    cases hms with
    | cons hms => exact .enter hd h1 h2 h3 he hnl (ih hms)
    | dot => exact absurd rfl h1
  | link _ hd h1 h2 h3 ht _ ih =>
    cases hms with
    | cons hms => exact .link (Or.inl rfl) hd h1 h2 h3 ht (ih (hms.append _))
    | dot => exact absurd rfl h1

theorem Finds.dropDots (h : fs.Finds true k d ns r) :
    fs.Finds true k d (ns.filter (· ≠ ".")) r := h.undotted (undotted_filter ns)

/-- Walks of the same names, dots aside, come to the same end. -/
theorem Finds.eq_of_filter {k' : Nat} {r' : Found} (h : fs.Finds true k d ns r)
    (h' : fs.Finds true k' d ms r') (hns : ns.filter (· ≠ ".") = ms.filter (· ≠ ".")) :
    r = r' := by
  have hleft := h.dropDots
  rw [hns] at hleft
  exact (hleft.unique h'.dropDots).2

/-- What is no link is found whether or not links are followed at the end. -/
theorem Finds.followed (h : fs.Finds false k d ns (.entry p e)) (hl : e.isLink = false) :
    fs.Finds true k d ns (.entry p e) := by
  generalize hr : Found.entry p e = found at h
  induction h with
  | here he => exact .here he
  | current hd hdot _ ih => exact .current hd hdot (ih hr)
  | parent hd hdots _ ih => exact .parent hd hdots (ih hr)
  | vacant => cases hr
  | unfollowed =>
    obtain ⟨-, rfl⟩ := Found.entry.inj hr
    cases hl
  | enter hd h1 h2 h3 he hnl _ ih => exact .enter hd h1 h2 h3 he hnl (ih hr)
  | link _ hd h1 h2 h3 ht _ ih => exact .link (Or.inl rfl) hd h1 h2 h3 ht (ih hr)

/-- What is found when links are followed at the end is found at once, or through a link. -/
theorem Finds.exists_unfollowed (h : fs.Finds true k d ns (.entry p e)) :
    ∃ k' ≤ k, ∃ q x, fs.Finds false k' d ns (.entry q x) ∧
      (x.isLink = true ∨ q = p ∧ x = e) := by
  generalize hr : Found.entry p e = found at h
  induction h with
  | here he =>
    obtain ⟨rfl, rfl⟩ := Found.entry.inj hr
    exact ⟨0, Nat.le_refl 0, _, _, .here he, Or.inr ⟨rfl, rfl⟩⟩
  | current hd hdot _ ih =>
    obtain ⟨k', hk, q, x, hf, hx⟩ := ih hr
    exact ⟨k', hk, q, x, .current hd hdot hf, hx⟩
  | parent hd hdots _ ih =>
    obtain ⟨k', hk, q, x, hf, hx⟩ := ih hr
    exact ⟨k', hk, q, x, .parent hd hdots hf, hx⟩
  | vacant => cases hr
  | unfollowed hff => cases hff
  | enter hd h1 h2 h3 he hnl _ ih =>
    obtain ⟨k', hk, q, x, hf, hx⟩ := ih hr
    exact ⟨k', hk, q, x, .enter hd h1 h2 h3 he hnl hf, hx⟩
  | @link k d n ns t r _ hd h1 h2 h3 ht _ ih =>
    by_cases hns : ns = []
    · subst hns
      exact ⟨0, Nat.zero_le _, _, _, .unfollowed rfl hd h1 h2 h3 ht, Or.inl rfl⟩
    · obtain ⟨k', hk, q, x, hf, hx⟩ := ih hr
      exact ⟨k' + 1, Nat.succ_le_succ hk, q, x, .link (Or.inr hns) hd h1 h2 h3 ht hf, hx⟩

/-- A path that leads to an entry names it, or a link to it. -/
theorem exists_unfollowed (h : fs.lookup cwd path true = .ok (.entry p e)) :
    ∃ q x, fs.lookup cwd path false = .ok (.entry q x) ∧ (x.isLink = true ∨ q = p ∧ x = e) := by
  obtain ⟨hne, hlen, k, hk, hf⟩ := lookup_eq_ok_iff.mp h
  obtain ⟨k', hk', q, x, hf', hx⟩ := hf.exists_unfollowed
  exact ⟨q, x, lookup_eq_ok_iff.mpr ⟨hne, hlen, k', Nat.le_trans hk' hk, hf'⟩, hx⟩

/-- A link that is not followed stands under the last name. -/
theorem Finds.exists_last {t : Path} (hw : fs.WellFormed) (hns : ns ≠ [])
    (h : fs.Finds false k d ns (.entry p (.link t))) :
    ∃ ms n k' D m, ns = ms ++ [n] ∧ n ≠ "." ∧ n ≠ ".." ∧
      fs.Finds true k' d ms (.entry D (.dir m)) ∧ p = D ++ [n] := by
  obtain ⟨ms, n, rfl⟩ := (List.eq_nil_or_concat ns).resolve_left hns
  rw [List.concat_eq_append] at h ⊢
  obtain ⟨k₁, k₂, D, m, -, h₁, h₂⟩ := h.split (List.cons_ne_nil n [])
  have hdots : ¬ (n = "." ∨ n = "..") := fun hn => by cases h.isDir_of_dots hw hn
  rw [not_or] at hdots
  refine ⟨ms, n, k₁, D, m, rfl, hdots.1, hdots.2, h₁, ?_⟩
  cases h₂ with
  | current _ hdot => exact absurd hdot hdots.1
  | parent _ hdotdot => exact absurd hdotdot hdots.2
  | unfollowed => rfl
  | enter _ _ _ _ he hnl h₂ =>
    cases h₂ with
    | here he' =>
      obtain rfl := Option.some.inj (he.symm.trans he')
      cases hnl
  | link hlast => exact absurd rfl (hlast.resolve_left (by decide))

/-! ## The places of a walk -/

/-- The walk of names from the directory `d` looks at the entry at `q`. -/
inductive Passes (fs : FileSystem) : Place → List String → Place → Prop
  | here (d : Place) (ns : List String) : Passes fs d ns d
  | current {d q : Place} {n : String} {ns : List String} : n = "." → Passes fs d ns q →
      Passes fs d (n :: ns) q
  | parent {d q : Place} {n : String} {ns : List String} : n = ".." → Passes fs d.dropLast ns q →
      Passes fs d (n :: ns) q
  | enter {d q : Place} {n : String} {ns : List String} {e : Entry} : n ≠ "." → n ≠ ".." →
      fs.get? (d ++ [n]) = some e → e.isLink = false → Passes fs (d ++ [n]) ns q →
      Passes fs d (n :: ns) q
  | look {d : Place} {n : String} {ns : List String} {t : Path} : n ≠ "." → n ≠ ".." →
      fs.get? (d ++ [n]) = some (.link t) → Passes fs d (n :: ns) (d ++ [n])
  | link {d q : Place} {n : String} {ns : List String} {t : Path} : n ≠ "." → n ≠ ".." →
      fs.get? (d ++ [n]) = some (.link t) → Passes fs (origin d t) (steps t ++ ns) q →
      Passes fs d (n :: ns) q

/-- The way of a path comes by a place or what is below it. The root does not count, by which all
come. -/
def ComesBy (fs : FileSystem) (cwd : Place) (path : Path) (F : Place) : Prop :=
  ∃ q ≠ [], F <+: q ∧ fs.Passes (origin cwd path) (steps path) q

/-- A walk looks at the entry where it ends. -/
theorem Finds.passes (h : fs.Finds follow k d ns (.entry p e)) : fs.Passes d ns p := by
  generalize hr : Found.entry p e = found at h
  induction h with
  | here =>
    obtain ⟨rfl, -⟩ := Found.entry.inj hr
    exact .here _ _
  | current _ hdot _ ih => exact .current hdot (ih hr)
  | parent _ hdots _ ih => exact .parent hdots (ih hr)
  | vacant => cases hr
  | unfollowed _ _ h1 h2 _ ht =>
    obtain ⟨rfl, -⟩ := Found.entry.inj hr
    exact .look h1 h2 ht
  | enter _ h1 h2 _ he hnl _ ih => exact .enter h1 h2 he hnl (ih hr)
  | link _ _ h1 h2 _ ht _ ih => exact .link h1 h2 ht (ih hr)

/-- The way of a path comes by what the path names. -/
theorem comesBy_of_lookup (hp : p ≠ []) (h : fs.lookup cwd path follow = .ok (.entry p e)) :
    fs.ComesBy cwd path p := by
  obtain ⟨-, -, k, -, hf⟩ := lookup_eq_ok_iff.mp h
  exact ⟨p, hp, List.prefix_refl p, hf.passes⟩

/-- All that a walk looks at is there. -/
theorem Finds.get?_ne_none_of_passes (hsub : ∀ q x, gs.get? q = some x → fs.get? q = some x)
    (h : gs.Finds true k d ns (.entry p e)) (hq : fs.Passes d ns q) : gs.get? q ≠ none := by
  have hstart : ∀ {d}, gs.isDirAt d = true → gs.get? d ≠ none := fun hd => by
    obtain ⟨m, hm⟩ := isDirAt_iff.mp hd
    rw [hm]
    exact Option.some_ne_none _
  generalize hr : Found.entry p e = found at h
  induction h with
  | here he =>
    cases hq
    rw [he]
    exact Option.some_ne_none _
  | current hd hdot _ ih =>
    cases hq with
    | here => exact hstart hd
    | current _ hq => exact ih hq hr
    | parent hdots => exact absurd (hdot.symm.trans hdots) (by decide)
    | enter h1 => exact absurd hdot h1
    | look h1 => exact absurd hdot h1
    | link h1 => exact absurd hdot h1
  | parent hd hdots _ ih =>
    cases hq with
    | here => exact hstart hd
    | current hdot => exact absurd (hdot.symm.trans hdots) (by decide)
    | parent _ hq => exact ih hq hr
    | enter _ h2 => exact absurd hdots h2
    | look _ h2 => exact absurd hdots h2
    | link _ h2 => exact absurd hdots h2
  | vacant => cases hr
  | unfollowed hff => cases hff
  | enter hd h1 h2 _ he hnl _ ih =>
    cases hq with
    | here => exact hstart hd
    | current hdot => exact absurd hdot h1
    | parent hdots => exact absurd hdots h2
    | enter _ _ _ _ hq => exact ih hq hr
    | look _ _ ht =>
      obtain rfl := Option.some.inj ((hsub _ _ he).symm.trans ht)
      cases hnl
    | link _ _ ht =>
      obtain rfl := Option.some.inj ((hsub _ _ he).symm.trans ht)
      cases hnl
  | link _ hd h1 h2 _ ht _ ih =>
    cases hq with
    | here => exact hstart hd
    | current hdot => exact absurd hdot h1
    | parent hdots => exact absurd hdots h2
    | enter _ _ he hnl =>
      obtain rfl := Option.some.inj ((hsub _ _ ht).symm.trans he)
      cases hnl
    | look =>
      rw [ht]
      exact Option.some_ne_none _
    | link _ _ ht' hq =>
      obtain rfl := Entry.link.inj (Option.some.inj ((hsub _ _ ht).symm.trans ht'))
      exact ih hq hr

/-- A walk remains if all that it looks at does. -/
theorem Finds.of_passes (h : fs.Finds true k d ns (.entry p e))
    (hkeep : ∀ q, fs.Passes d ns q → gs.get? q = fs.get? q) :
    gs.Finds true k d ns (.entry p e) := by
  have hdir : ∀ {d ns}, (∀ q, fs.Passes d ns q → gs.get? q = fs.get? q) → fs.isDirAt d = true →
      gs.isDirAt d = true := fun hkeep hd => by
    rwa [FileSystem.isDirAt, hkeep _ (.here _ _)]
  generalize hr : Found.entry p e = found at h
  induction h with
  | here he => exact .here (by rw [hkeep _ (.here _ _), he])
  | current hd hdot _ ih =>
    exact .current (hdir hkeep hd) hdot (ih (fun q hq => hkeep q (.current hdot hq)) hr)
  | parent hd hdots _ ih =>
    exact .parent (hdir hkeep hd) hdots (ih (fun q hq => hkeep q (.parent hdots hq)) hr)
  | vacant => cases hr
  | unfollowed hff => cases hff
  | enter hd h1 h2 h3 he hnl _ ih =>
    have hget := hkeep _ (.enter h1 h2 he hnl (.here _ _))
    exact .enter (hdir hkeep hd) h1 h2 h3 (hget.trans he) hnl
      (ih (fun q hq => hkeep q (.enter h1 h2 he hnl hq)) hr)
  | link _ hd h1 h2 h3 ht _ ih =>
    have hget := hkeep _ (.look h1 h2 ht)
    exact .link (Or.inl rfl) (hdir hkeep hd) h1 h2 h3 (hget.trans ht)
      (ih (fun q hq => hkeep q (.link h1 h2 ht hq)) hr)

/-! ## A tree that is gone -/

/-- What stood at a place and below it is gone, and nothing else. The root does not go. -/
def Gone (fs gs : FileSystem) (F : Place) : Prop :=
  ∀ q ≠ [], gs.get? q = if F <+: q then none else fs.get? q

theorem Gone.sub (h : Gone fs gs F) : ∀ q x, gs.get? q = some x → fs.get? q = some x := by
  intro q x hx
  by_cases hq : q = []
  · rwa [hq] at hx ⊢
  · rw [h q hq] at hx
    split at hx
    · cases hx
    · exact hx

/-- What a path removes stood where it leads when it is not followed. -/
theorem gone_of_removeTree (hw : fs.WellFormed) (h : fs.removeTree cwd path = .ok gs) :
    ∃ F e, fs.stat cwd path false = .ok (F, e) ∧ Gone fs gs F := by
  obtain ⟨F, e, hstat, ⟨-, rfl⟩ | ⟨hdir, rfl⟩⟩ := removeTree_eq_ok h
  · exact ⟨F, e, hstat, fun q hq => get?_eraseTree hq⟩
  · have hF := ne_nil_of_isDir (get?_of_lookup (stat_eq_ok_iff.mp hstat)) hdir
    exact ⟨F, e, hstat, fun q _ => (removed_of_stat hw hF hstat (Or.inr ⟨hdir, rfl⟩)).get?_eq q⟩

/-- When a tree is gone, what is found is what was found on ways that do not come by it. -/
theorem lookup_iff_of_gone (h : Gone fs gs F) : gs.lookup cwd path true = .ok (.entry p e) ↔
    fs.lookup cwd path true = .ok (.entry p e) ∧ ¬ fs.ComesBy cwd path F := by
  constructor
  · intro hl
    refine ⟨lookup_mono h.sub hl, ?_⟩
    rintro ⟨q, hq, hF, hpass⟩
    obtain ⟨-, -, k, -, hf⟩ := lookup_eq_ok_iff.mp hl
    have hthere := hf.get?_ne_none_of_passes h.sub hpass
    rw [h q hq, if_pos hF] at hthere
    exact hthere rfl
  · rintro ⟨hl, hnot⟩
    obtain ⟨hne, hlen, k, hk, hf⟩ := lookup_eq_ok_iff.mp hl
    refine lookup_eq_ok_iff.mpr ⟨hne, hlen, k, hk, hf.of_passes fun q hpass => ?_⟩
    by_cases hq : q = []
    · rw [hq, get?_root, get?_root]
    · rw [h q hq, if_neg fun hF => hnot ⟨q, hq, hF, hpass⟩]

/-- What a path removes that is not a directory is gone, and nothing else is. -/
theorem gone_of_removeFile (hw : fs.WellFormed) (h : fs.removeFile cwd path = .ok gs) :
    ∃ F e, fs.lookup cwd path false = .ok (.entry F e) ∧ F ≠ [] ∧ e.isDir = false ∧
      gs.WellFormed ∧ Gone fs gs F := by
  obtain ⟨F, e, hstat, hdir, rfl⟩ := removeFile_eq_ok h
  have hlook := stat_eq_ok_iff.mp hstat
  have hF := ne_nil_of_isDir (get?_of_lookup hlook) hdir
  have hremoved := removed_of_stat hw hF hstat (Or.inr ⟨hdir, rfl⟩)
  exact ⟨F, e, hlook, hF, hdir, hremoved.wellFormed, fun q _ => hremoved.get?_eq q⟩

/-- Nothing is found by a path of which the last entry has been removed. -/
theorem not_lookup_of_removeFile (hw : fs.WellFormed) (h : fs.removeFile cwd path = .ok gs) :
    gs.lookup cwd path follow ≠ .ok (.entry p e) := by
  intro hl
  obtain ⟨F, x, hlook, hF, -, -, hgone⟩ := gone_of_removeFile hw h
  cases follow with
  | true => exact ((lookup_iff_of_gone hgone).mp hl).2 (comesBy_of_lookup hF hlook)
  | false =>
    -- The path would name what it named before, which is gone.
    have hsame := (lookup_mono hgone.sub hl).symm.trans hlook
    obtain ⟨rfl, -⟩ := Found.entry.inj (Except.ok.inj hsame)
    have hget := get?_of_lookup hl
    rw [hgone p hF, if_pos (List.prefix_refl p)] at hget
    cases hget

/-! ## Paths that are spelled below another -/

/-- The steps of a path are written as its names, dots aside. -/
theorem map_text_filterMap_step? (hns : "" ∉ ns) :
    (ns.filterMap Path.step?).map Component.text = ns.filter (· ≠ ".") := by
  induction ns with
  | nil => rfl
  | cons n ns ih =>
    rw [List.mem_cons, not_or] at hns
    have ih := ih hns.2
    by_cases hdot : n = "."
    · subst hdot
      simpa [Path.step?] using ih
    · by_cases hdots : n = ".."
      · subst hdots
        simpa [Path.step?, Component.text] using ih
      · simpa [Path.step?, Ne.symm hns.1, hdot, hdots, Component.text] using ih

theorem map_text_components (habs : path.isAbsolute = true) :
    path.components.map Component.text = "/" :: (namesOf path).filter (· ≠ ".") := by
  have hblank : "" ∉ namesOf path := fun hmem => (mem_namesOf hmem).1 rfl
  rw [Path.components_of_isAbsolute habs, List.map_cons, map_text_filterMap_step? hblank]
  rfl

theorem filter_steps (path : Path) :
    (steps path).filter (· ≠ ".") = (namesOf path).filter (· ≠ ".") := by
  unfold steps
  split <;> simp

/-- The steps of a path are written as the names of its walk, dots aside. -/
theorem filter_text_components (path : Path) :
    (path.components.map Component.text).filter (· ≠ ".") =
      (if path.isAbsolute then ["/"] else []) ++ (steps path).filter (· ≠ ".") := by
  rw [filter_steps]
  cases habs : path.isAbsolute with
  | true =>
    rw [map_text_components habs]
    simp
  | false =>
    have hblank : "" ∉ namesOf path := fun hmem => (mem_namesOf hmem).1 rfl
    obtain ⟨front, hfront, hcomp⟩ := Path.components_of_relative habs
    have hdots : (front.map Component.text).filter (· ≠ ".") = [] := by
      rcases hfront with rfl | rfl <;> rfl
    rw [hcomp, List.map_append, List.filter_append, hdots, map_text_filterMap_step? hblank]
    simp

/-- Paths of the same steps are walked from one place, by the same names, dots aside. -/
theorem walk_of_sameSteps (cwd : Place) {path' : Path} (h : path.sameSteps path' = true) :
    origin cwd path = origin cwd path' ∧
      (steps path).filter (· ≠ ".") = (steps path').filter (· ≠ ".") := by
  have hcomp : path.components = path'.components := of_decide_eq_true h
  have habs : path.isAbsolute = path'.isAbsolute := by
    rw [Bool.eq_iff_iff]
    constructor
    · intro hp
      rw [Path.components_of_isAbsolute hp] at hcomp
      exact Path.isAbsolute_of_components hcomp.symm
    · intro hp
      rw [Path.components_of_isAbsolute hp] at hcomp
      exact Path.isAbsolute_of_components hcomp
  have hsteps := congrArg (fun cs => (cs.map Component.text).filter (· ≠ ".")) hcomp
  rw [filter_text_components, filter_text_components, habs, List.append_cancel_left_eq] at hsteps
  exact ⟨by rw [origin, origin, habs], hsteps⟩

/-- Paths of the same steps do not lead to different ends. -/
theorem lookup_eq_of_sameSteps {path' : Path} {r' : Found} (hsame : path.sameSteps path' = true)
    (h : fs.lookup cwd path true = .ok r) (h' : fs.lookup cwd path' true = .ok r') : r = r' := by
  obtain ⟨-, -, k, -, hf⟩ := lookup_eq_ok_iff.mp h
  obtain ⟨-, -, k', -, hf'⟩ := lookup_eq_ok_iff.mp h'
  obtain ⟨horigin, hsteps⟩ := walk_of_sameSteps cwd hsame
  rw [horigin] at hf
  exact hf.eq_of_filter hf' hsteps

theorem origin_of_isAbsolute (cwd : Place) (h : path.isAbsolute = true) : origin cwd path = [] :=
  if_pos h

theorem text_ne_empty_of_isAbsolute (h : path.isAbsolute = true) : path.text ≠ "" := by
  intro hempty
  rw [Path.isAbsolute, hempty] at h
  exact absurd h (by decide)

theorem isAbsolute_join {t : Path} (h : t.isAbsolute = true) (q : Path) :
    (t.join q).isAbsolute = true := by
  by_cases hq : q.isAbsolute = true
  · rwa [Path.join, if_pos hq]
  · have hne := text_ne_empty_of_isAbsolute h
    rw [Path.isAbsolute, decide_eq_true_eq] at h
    obtain ⟨cs, hcs⟩ := List.head?_eq_some_iff.mp h
    rw [Path.join, if_neg hq, if_neg (by simpa using hne)]
    split <;> simp [Path.isAbsolute, hcs]

/-- A list that is a name after others, dots aside, is so with dots. -/
theorem exists_append_of_filter {as bs : List String}
    (h : ns.filter (· ≠ ".") = as ++ n :: bs) :
    ∃ xs ys, ns = xs ++ n :: ys ∧ xs.filter (· ≠ ".") = as := by
  obtain ⟨xs, rest, rfl, rfl, hrest⟩ := List.filter_eq_append_iff.mp h
  obtain ⟨dots, ys, rfl, hdots, -, -⟩ := List.filter_eq_cons_iff.mp hrest
  refine ⟨xs ++ dots, ys, (List.append_assoc _ _ _).symm, ?_⟩
  rw [List.filter_append, List.filter_eq_nil_iff.mpr hdots, List.append_nil]

/-- A path that is spelled below another is walked by the names of that one, with dots between
them. -/
theorem steps_of_startsWith (hroot : root.isAbsolute = true) (hn : PlainName n)
    (h : path.startsWith (root.child n) = true) : path.isAbsolute = true ∧
      ∃ ns ms, steps path = ns ++ n :: ms ∧
        ns.filter (· ≠ ".") = (steps root).filter (· ≠ ".") := by
  have hchild : (root.child n).isAbsolute = true := isAbsolute_join hroot ⟨n⟩
  have hnames : namesOf (root.child n) = namesOf root ++ [n] := by
    have hjoin := namesOf_join (text_ne_empty_of_isAbsolute hroot) (isAbsolute_name hn)
    have hplain : PlainPlace [n] := by simpa using hn
    rw [← namesOf_relativePath hplain]
    exact hjoin
  rw [Path.startsWith, List.isPrefixOf_iff_prefix] at h
  have habs : path.isAbsolute = true := by
    obtain ⟨rest, hrest⟩ := h
    rw [Path.components_of_isAbsolute hchild] at hrest
    exact Path.isAbsolute_of_components hrest.symm
  have htexts := h.map Component.text
  rw [map_text_components hchild, map_text_components habs, List.cons_prefix_cons, hnames,
    List.filter_append] at htexts
  obtain ⟨-, rest, hrest⟩ := htexts
  rw [← filter_steps, ← filter_steps, List.filter_cons_of_pos (by simpa using hn.ne_dot),
    List.append_assoc] at hrest
  exact ⟨habs, exists_append_of_filter hrest.symm⟩

/-- Nothing is found by a path that is spelled below the one removed. -/
theorem not_lookup_of_startsWith (hw : fs.WellFormed) (hroot : root.isAbsolute = true)
    (hn : PlainName n) (hgone : fs.removeTree cwd root = .ok gs)
    (hpath : path.startsWith (root.child n) = true) :
    gs.lookup cwd path true ≠ .ok (.entry p e) := by
  intro hl
  obtain ⟨F, x, hstat, hgone⟩ := gone_of_removeTree hw hgone
  obtain ⟨habs, ns, ms, hsteps, hns⟩ := steps_of_startsWith hroot hn hpath
  obtain ⟨-, -, k, -, hf⟩ := lookup_eq_ok_iff.mp hl
  obtain ⟨hne, -, k', -, hf'⟩ := lookup_eq_ok_iff.mp (stat_eq_ok_iff.mp hstat)
  rw [origin_of_isAbsolute cwd habs, hsteps] at hf
  rw [origin_of_isAbsolute cwd hroot] at hf'
  -- The walk comes to where the removed path led, and goes on below it.
  obtain ⟨k₁, k₂, D, m, -, h₁, h₂⟩ := hf.split (List.cons_ne_nil n ms)
  have hbelow : ¬ F <+: D ++ [n] := fun hpre =>
    h₂.get?_ne_none hn (by rw [hgone _ (by simp), if_pos hpre])
  have h₁' := h₁.mono hgone.sub
  cases hlink : x.isLink with
  | false =>
    obtain rfl := (Found.entry.inj (h₁'.eq_of_filter (hf'.followed hlink) hns)).1
    exact hbelow (List.prefix_append D [n])
  | true =>
    obtain ⟨t, rfl⟩ := Entry.isLink_iff.mp hlink
    -- The link itself is gone, which the walk would follow.
    obtain ⟨as, l, k₃, E, m', hlast, hdot, hdots, h₃, rfl⟩ := hf'.exists_last hw (steps_ne_nil hne)
    rw [hlast, List.filter_append, List.filter_cons_of_pos (by simpa using hdot)] at hns
    obtain ⟨bs, cs, rfl, hbs⟩ := exists_append_of_filter hns
    have hl : PlainName l := by
      have hmem : l ∈ steps root := by simp [hlast]
      obtain ⟨hblank, hslash⟩ := mem_steps hmem
      exact ⟨hblank, hdot, hdots, hslash⟩
    obtain ⟨k₄, k₅, E', m'', -, h₄, h₅⟩ := h₁.split (List.cons_ne_nil l cs)
    obtain rfl := (Found.entry.inj ((h₄.mono hgone.sub).eq_of_filter h₃ hbs)).1
    exact h₅.get?_ne_none hl (by rw [hgone _ (by simp), if_pos (List.prefix_refl _)])

end CodeIndex.FileSystem

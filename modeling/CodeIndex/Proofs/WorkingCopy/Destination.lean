import CodeIndex.Proofs.FileSystem.Reach
import CodeIndex.Proofs.Path.Absolute
import CodeIndex.Proofs.WorkingCopy.Confined

/-!
# Where a destination is

A destination that may not exist yet is settled by climbing to an ancestor that exists. What is
resolved there is free of links, and the names left behind go after it as they are. They name a link
only where a lookup has given up on one.

* `Climbs`, `climbs_climb` : climbing, however far it goes;
* `Climbed`, `Climbs.climbed` : what has been left behind, and that it was not to be found;
* `settledDestination_eq`, `Settling`, `exists_settling` : how a destination is settled;
* `Settling.givesUp_of_linkLeft` : why a link may be left;
* `Settling.pathExists_of_parent` : what comes before a way up is there;
* `Made`, `pathOf_eq_iff`, `Settling.place_eq` : where the settled destination and the given one lead
  once the directories are made;
* `settledDestination_settles` : all that settling comes to.
-/

namespace CodeIndex.FileSystem

/-! ## Climbing -/

/-- Climbing from a path: up from what does not exist, as long as there is a name at its end. The
names left behind come first to last, before those that were there. -/
inductive Climbs (fs : FileSystem) (cwd : Place) :
    Path → List String → Path → List String → Prop
  | found {path names} : fs.pathExists cwd path = true → Climbs fs cwd path names path names
  | stuck {path names} : fs.pathExists cwd path = false →
      path.parent? = none ∨ path.fileName? = none → Climbs fs cwd path names path names
  | up {path parent name names top rest} : fs.pathExists cwd path = false →
      path.parent? = some parent → path.fileName? = some name →
      Climbs fs cwd parent (name :: names) top rest → Climbs fs cwd path names top rest

variable {fs gs : FileSystem} {cwd D P R : Place} {given path top r : Path} {names rest : List String}
  {e : Entry}

/-- As many steps as a path has are enough to climb it. -/
theorem climbs_climb {fuel : Nat} (h : path.Rooted) (hfuel : (namesOf path).length < fuel) :
    fs.Climbs cwd path names (fs.climb cwd fuel path names).1 (fs.climb cwd fuel path names).2 := by
  induction fuel generalizing path names with
  | zero => omega
  | succ fuel ih =>
    rw [climb]
    split
    · next hexists => exact .found hexists
    · next hmiss =>
      rw [Bool.not_eq_true] at hmiss
      split
      · next parent name hparent hname =>
        obtain ⟨hrooted, hnames⟩ := h.of_parent? hname hparent
        rw [hnames, List.length_append, List.length_singleton] at hfuel
        exact .up hmiss hparent hname (ih hrooted (by omega))
      · next hnone =>
        apply Climbs.stuck hmiss
        cases hparent : path.parent? with
        | none => exact Or.inl rfl
        | some parent =>
          cases hname : path.fileName? with
          | none => exact Or.inr rfl
          | some name => exact absurd hname (hnone parent name hparent)

/-- What climbing from a path has left behind: nothing was found by the path of any of it. -/
structure Climbed (fs : FileSystem) (cwd : Place) (path top : Path) (rest : List String) : Prop where
  rooted : top.Rooted
  plain : PlainPlace rest
  names : namesOf path = namesOf top ++ rest
  missing : ∀ u, u <+: rest → u ≠ [] → ∃ q ∈ path.ancestors, q.isAbsolute = true ∧
    namesOf q = namesOf top ++ u ∧ fs.pathExists cwd q = false

theorem Climbed.here (h : path.Rooted) : Climbed fs cwd path path [] where
  rooted := h
  plain := plainPlace_nil
  names := (List.append_nil _).symm
  missing _ hu hne := absurd (List.prefix_nil.mp hu) hne

theorem Climbed.up {parent : Path} {name : String} (h : Climbed fs cwd parent top rest)
    (hpath : path.Rooted) (hmiss : fs.pathExists cwd path = false)
    (hparent : path.parent? = some parent) (hname : path.fileName? = some name) :
    Climbed fs cwd path top (rest ++ [name]) := by
  have hplain : PlainName name := Path.plainName_of_fileName? hname
  have hnames : namesOf path = namesOf top ++ (rest ++ [name]) := by
    rw [(hpath.of_parent? hname hparent).2, h.names, List.append_assoc]
  refine ⟨h.rooted, by simpa using ⟨h.plain, hplain⟩, hnames, fun u hu hne => ?_⟩
  rw [hpath.ancestors_eq hname hparent]
  rcases List.prefix_concat_iff.mp hu with rfl | hu
  · exact ⟨path, List.mem_cons_self, hpath.isAbsolute, hnames, hmiss⟩
  · obtain ⟨q, hq, habs, hqnames, hqmiss⟩ := h.missing u hu hne
    exact ⟨q, List.mem_cons_of_mem _ hq, habs, hqnames, hqmiss⟩

theorem Climbs.climbed (h : fs.Climbs cwd path names top rest) (hpath : path.Rooted) :
    ∃ front, rest = front ++ names ∧ Climbed fs cwd path top front := by
  induction h with
  | found _ => exact ⟨[], rfl, .here hpath⟩
  | stuck _ _ => exact ⟨[], rfl, .here hpath⟩
  | up hmiss hparent hname _ ih =>
    obtain ⟨front, rfl, hclimbed⟩ := ih (hpath.of_parent? hname hparent).1
    refine ⟨front ++ [_], ?_, hclimbed.up hpath hmiss hparent hname⟩
    rw [List.append_assoc, List.singleton_append]

/-! ## Settling -/

theorem plainPlace_of_isDirAt (hw : fs.WellFormed) (hP : fs.isDirAt P = true) : PlainPlace P := by
  obtain ⟨m, hm⟩ := isDirAt_iff.mp hP
  exact hw.plainPlace hm

theorem absolutePath_eq_ok (h : absolutePath cwd given = .ok path) :
    path = Path.absolute (Path.ofNames cwd) given := by
  unfold absolutePath at h
  split at h
  · cases h
  · exact (Except.ok.inj h).symm

theorem rooted_of_absolutePath (hcwd : PlainPlace cwd) (h : absolutePath cwd given = .ok path) :
    path.Rooted := by
  rw [absolutePath_eq_ok h]
  exact Path.rooted_absolute hcwd given

/-- Climbing from the absolute path of a destination comes to an end, and what settling comes to is
what is resolved there, with the names left behind after it. -/
theorem settledDestination_eq (hw : fs.WellFormed) (hcwd : PlainPlace cwd)
    (h : absolutePath cwd given = .ok path) :
    ∃ top rest, fs.Climbs cwd path [] top rest ∧
      fs.settledDestination cwd given =
        match fs.canonical cwd top with
        | .ok P => .ok (Path.ofNames (P ++ rest))
        | .error cause => .error (.unresolved given cause) := by
  have hrooted := rooted_of_absolutePath hcwd h
  have hfuel : (namesOf path).length < path.components.length := by
    rw [hrooted.length_components]
    omega
  have hplain : PlainPlace (fs.climb cwd path.components.length path []).2 :=
    climb_plain path.components.length path [] plainPlace_nil
  refine ⟨_, _, climbs_climb hrooted hfuel, ?_⟩
  unfold settledDestination
  rw [h]
  dsimp only
  cases hP : fs.canonical cwd (fs.climb cwd path.components.length path []).1 with
  | error cause => rfl
  | ok P =>
    obtain ⟨e, hlookup⟩ := canonical_eq_ok_iff.mp hP
    exact congrArg _ (Path.foldl_child_ofNames (hw.plainPlace (get?_of_lookup hlookup)) hplain)

/-- How a destination was settled: climbing from its absolute path came to one that leads to a
place, and the names left behind go after that place. -/
structure Settling (fs : FileSystem) (cwd : Place) (given path top : Path) (rest P : Place)
    (e : Entry) : Prop where
  absolute : absolutePath cwd given = .ok path
  names : namesOf path = origin cwd given ++ (namesOf given).filter (· ≠ ".")
  climbed : Climbed fs cwd path top rest
  leads : fs.lookup cwd top true = .ok (.entry P e)

theorem exists_settling (hw : fs.WellFormed) (hcwd : fs.isDirAt cwd = true)
    (h : fs.settledDestination cwd given = .ok r) :
    ∃ path top rest P e, fs.Settling cwd given path top rest P e ∧ PlainPlace (P ++ rest) ∧
      r = Path.ofNames (P ++ rest) := by
  have hplain := plainPlace_of_isDirAt hw hcwd
  cases habsolute : absolutePath cwd given with
  | error e =>
    rw [settledDestination, habsolute] at h
    cases h
  | ok path =>
    obtain ⟨top, rest, hclimbs, hsettled⟩ := settledDestination_eq hw hplain habsolute
    obtain ⟨front, hfront, hclimbed⟩ := hclimbs.climbed (rooted_of_absolutePath hplain habsolute)
    rw [List.append_nil] at hfront
    subst hfront
    rw [h] at hsettled
    split at hsettled
    · next P hP =>
      obtain ⟨e, hlookup⟩ := canonical_eq_ok_iff.mp hP
      have hPplain : PlainPlace P := hw.plainPlace (get?_of_lookup hlookup)
      refine ⟨path, top, rest, P, e, ⟨habsolute, ?_, hclimbed, hlookup⟩,
        plainPlace_append.mpr ⟨hPplain, hclimbed.plain⟩, Except.ok.inj hsettled⟩
      rw [absolutePath_eq_ok habsolute]
      exact (Path.absolute_ofNames hplain given).2
    · cases hsettled

theorem settledDestination_eq_error {error : CopyError}
    (h : fs.settledDestination cwd given = .error error) : ∃ cause, error = .unresolved given cause := by
  unfold settledDestination at h
  split at h
  · exact ⟨_, (Except.error.inj h).symm⟩
  · dsimp only at h
    split at h
    · exact ⟨_, (Except.error.inj h).symm⟩
    · cases h

namespace Settling

/-- The ancestor that was reached is walked by its names. -/
theorem finds_top (h : fs.Settling cwd given path top rest P e) :
    top.text.utf8ByteSize ≤ maxPath ∧
      ∃ k ≤ maxLinks, fs.Finds true k [] (namesOf top) (.entry P e) := by
  obtain ⟨-, hlen, k, hk, hf⟩ := lookup_eq_ok_iff.mp h.leads
  refine ⟨hlen, k, hk, ?_⟩
  have hdots := hf.dropDots
  rw [filter_steps, h.climbed.rooted.filter_names,
    origin_of_isAbsolute cwd h.climbed.rooted.isAbsolute] at hdots
  exact hdots

/-- What was resolved is no link. -/
theorem isLink_eq_false (hw : fs.WellFormed) (h : fs.Settling cwd given path top rest P e) :
    e.isLink = false := by
  obtain ⟨-, k, -, hf⟩ := h.finds_top
  exact hf.isLink_eq_false hw fun x => isLink_of_isDirAt isDirAt_root

/-- Of what was resolved, a walk straight from the root comes to it. -/
theorem finds_place (hw : fs.WellFormed) (h : fs.Settling cwd given path top rest P e) :
    fs.Finds true 0 [] P (.entry P e) :=
  hw.finds_dir [] P (get?_of_lookup h.leads) (h.isLink_eq_false hw)

/-! ## Links that are left -/

/-- A link that is left in a settled destination has been given up on. -/
theorem givesUp_of_linkLeft (hw : fs.WellFormed) (h : fs.Settling cwd given path top rest P e)
    (hplain : PlainPlace (P ++ rest)) (hleft : fs.LinkLeft cwd (P ++ rest)) :
    ∃ q ∈ path.ancestors, fs.GivesUp cwd q := by
  obtain ⟨q, t, hq, ht, hexists⟩ := hleft
  have hfree : ¬ q <+: P := fun hqP =>
    hw.linkFree (get?_of_lookup h.leads) (h.isLink_eq_false hw) q t hqP ht
  obtain ⟨u, rfl⟩ : P <+: q :=
    (List.prefix_or_prefix_of_prefix hq (List.prefix_append P rest)).resolve_left hfree
  have hu : u <+: rest := (List.prefix_append_right_inj P).mp hq
  have hne : u ≠ [] := by
    rintro rfl
    rw [List.append_nil] at hfree
    exact hfree (List.prefix_refl P)
  obtain ⟨q, hmem, habs, hnames, hmiss⟩ := h.climbed.missing u hu hne
  refine ⟨q, hmem, ?_⟩
  -- The way by the names of that ancestor comes to what was resolved, and goes on to the link's end.
  have hPu : PlainPlace (P ++ u) := fun n hn => hplain n (hq.subset hn)
  obtain ⟨p, x, hlookup⟩ := exists_lookup hexists
  obtain ⟨k, -, hwalk⟩ := finds_of_lookup_ofNames hPu hlookup
  obtain ⟨k₂, -, hrest⟩ := hwalk.after (h.finds_place hw)
  obtain ⟨-, k₁, -, htop⟩ := h.finds_top
  have hall : fs.Finds true (k₁ + k₂) (origin cwd q) (namesOf q) (.entry p x) := by
    rw [origin_of_isAbsolute cwd habs, hnames]
    exact htop.extend hrest
  exact givesUp_of_finds (text_ne_empty_of_isAbsolute habs) hmiss hall

/-! ## Ways up after what is missing -/

/-- Whatever comes before a way up in a destination that was settled is there. -/
theorem pathExists_of_parent {front tail : List String}
    (h : fs.Settling cwd given path top rest P e)
    (hnames : (namesOf given).filter (· ≠ ".") = front ++ tail) (hup : ".." ∈ tail) :
    fs.pathExists cwd (Path.ofNames (origin cwd given ++ front)) = true := by
  have hrest : ".." ∉ rest := fun hmem => (h.climbed.plain _ hmem).ne_dotDot rfl
  have hsplit : origin cwd given ++ front ++ tail = namesOf top ++ rest := by
    rw [← h.climbed.names, h.names, hnames, List.append_assoc]
  -- The way up is among the names of the ancestor that exists.
  obtain ⟨mid, hmid, hmidne⟩ : ∃ mid, namesOf top = origin cwd given ++ front ++ mid ∧ mid ≠ [] := by
    rcases List.append_eq_append_iff.mp hsplit with ⟨mid, hmid, htail⟩ | ⟨mid, -, hrest'⟩
    · refine ⟨mid, hmid, ?_⟩
      rintro rfl
      rw [htail, List.nil_append] at hup
      exact hrest hup
    · rw [hrest'] at hrest
      exact absurd (List.mem_append_right mid hup) hrest
  obtain ⟨hlen, k, hk, hf⟩ := h.finds_top
  have hsize := Path.utf8ByteSize_ofNames_namesOf_le h.climbed.rooted.isAbsolute
  rw [hmid] at hf hsize
  obtain ⟨k₁, k₂, D, m, rfl, hfront, -⟩ := hf.split hmidne
  have hwritten : ∀ s ∈ origin cwd given ++ front, s ≠ "" ∧ '/' ∉ s.toList := by
    intro s hs
    apply mem_namesOf
    rw [hmid]
    exact List.mem_append_left _ hs
  have hwalked : namesOf (Path.ofNames (origin cwd given ++ front)) = origin cwd given ++ front := by
    rw [namesOf_ofNames_eq_filter fun s hs => (hwritten s hs).2, List.filter_eq_self]
    exact fun s hs => by simpa using (hwritten s hs).1
  have hfound : fs.Finds true k₁ (origin cwd (Path.ofNames (origin cwd given ++ front)))
      (namesOf (Path.ofNames (origin cwd given ++ front))) (.entry D (.dir m)) := by
    rw [origin_ofNames, hwalked]
    exact hfront
  have hshort := utf8ByteSize_ofNames_le (List.prefix_append (origin cwd given ++ front) mid)
  exact pathExists_of_lookup (lookup_of_finds (Path.ofNames_text_ne_empty _) (by omega) (by omega)
    hfound fun _ => rfl)

/-! ## Where the destination leads once it is made -/

/-- In a file system that has more, the names of the absolute path lead where the settled
destination does. -/
theorem finds_path {k : Nat} {d : Entry} (h : fs.Settling cwd given path top rest P e)
    (hw : fs.WellFormed) (hsub : ∀ q x, fs.get? q = some x → gs.get? q = some x)
    (hD : gs.Finds true k [] (P ++ rest) (.entry D d)) :
    ∃ k', gs.Finds true k' [] (namesOf path) (.entry D d) := by
  obtain ⟨-, k₁, -, htop⟩ := h.finds_top
  obtain ⟨k₂, -, hrest⟩ := hD.after ((h.finds_place hw).mono hsub)
  rw [h.climbed.names]
  exact ⟨k₁ + k₂, (htop.mono hsub).extend hrest⟩

/-- Where the given destination leads to something, its names from the root lead there as well. -/
theorem finds_given {d : Entry} (h : fs.Settling cwd given path top rest P e)
    (hw : gs.WellFormed) (hcwd : gs.isDirAt cwd = true)
    (hD : gs.lookup cwd given true = .ok (.entry D d)) :
    ∃ k, gs.Finds true k [] (namesOf path) (.entry D d) := by
  obtain ⟨-, -, k, -, hf⟩ := lookup_eq_ok_iff.mp hD
  have hdir : gs.isDirAt (origin cwd given) = true := by
    unfold origin
    split
    · exact isDirAt_root
    · exact hcwd
  obtain ⟨m, hm⟩ := isDirAt_iff.mp hdir
  have hdots := hf.dropDots
  rw [filter_steps] at hdots
  rw [h.names]
  exact ⟨0 + k, (hw.finds_dir [] _ hm rfl).extend hdots⟩

end Settling

/-- The directories of a path have been made, and it leads to the last of them. -/
structure Made (fs gs : FileSystem) (cwd R D : Place) (m : Nat) : Prop where
  wellFormed : gs.WellFormed
  added : DirsAdded fs gs
  leads : gs.lookup cwd (Path.ofNames R) true = .ok (.entry D (.dir m))

theorem exists_made (hw : fs.WellFormed) (hR : PlainPlace R)
    (h : fs.createDirs cwd (Path.ofNames R) = (gs, none)) : ∃ D m, Made fs gs cwd R D m := by
  have hwg := hw.createDirs cwd (Path.ofNames R)
  have hadded := dirsAdded_createDirs fs cwd (Path.ofNames R)
  rw [h] at hwg hadded
  obtain ⟨D, m, hD⟩ := exists_lookup_of_createDirs hw hR h
  exact ⟨D, m, hwg, hadded, hD⟩

/-- A path whose directories have been made leads to the place that it names exactly if no link that
leads to something is left in it. -/
theorem pathOf_eq_iff {m : Nat} (hw : fs.WellFormed) (hR : PlainPlace R)
    (hmade : fs.createDirs cwd (Path.ofNames R) = (gs, none)) (h : Made fs gs cwd R D m) :
    pathOf D = Path.ofNames R ↔ ¬ fs.LinkLeft cwd R := by
  have hD := get?_of_lookup h.leads
  constructor
  · rintro heq ⟨q, t, hq, ht, -⟩
    obtain rfl : D = R := ofNames_injective (h.wellFormed.plainPlace hD) hR heq
    exact h.wellFormed.linkFree hD rfl q t hq (h.added.get?_eq ht)
  · intro hnone
    have hdir := ((clear_of_not_linkLeft hR hnone).createDirs hw hR hmade).2 rfl
    exact congrArg Path.ofNames ((linkFree_of_isDirAt h.wellFormed hdir).place_eq hR h.leads)

/-- The given destination and the settled one, once that is made, do not lead to different
places. -/
theorem Settling.place_eq {D' : Place} {m : Nat} (h : fs.Settling cwd given path top rest P e)
    (hw : fs.WellFormed) (hcwd : fs.isDirAt cwd = true) (hR : PlainPlace (P ++ rest))
    (hmade : Made fs gs cwd (P ++ rest) D m) (hD' : gs.canonical cwd given = .ok D') : D' = D := by
  have hsub : ∀ q x, fs.get? q = some x → gs.get? q = some x := fun q x => hmade.added.get?_eq
  have hcwd' : gs.isDirAt cwd = true := by
    obtain ⟨m, hm⟩ := isDirAt_iff.mp hcwd
    exact isDirAt_iff.mpr ⟨m, hsub cwd _ hm⟩
  obtain ⟨d, hgiven⟩ := canonical_eq_ok_iff.mp hD'
  obtain ⟨k, -, hsettled⟩ := finds_of_lookup_ofNames hR hmade.leads
  obtain ⟨k₁, h₁⟩ := h.finds_path hw hsub hsettled
  obtain ⟨k₂, h₂⟩ := h.finds_given hmade.wellFormed hcwd' hgiven
  exact (Found.entry.inj (h₂.unique h₁).2).1

/-! ## What settling comes to -/

/-- What settling a destination comes to. Climbing ends by itself, and what is resolved where it ends
goes before the names left behind; a way up after what is missing is an error. A settled destination
is absolute and without dots; once it is made, the given one leads where it does, if anywhere. The
longest part of it that exists is free of links, and it leads to the place that it names, exactly if
no link that leads to something is left in it, and where one is, a lookup has given up. -/
theorem settledDestination_settles (hw : fs.WellFormed) (hcwd : fs.isDirAt cwd = true)
    (given : Path) :
    (∀ path, absolutePath cwd given = .ok path → ∃ top rest, fs.Climbs cwd path [] top rest ∧
      fs.settledDestination cwd given =
        match fs.canonical cwd top with
        | .ok P => .ok (Path.ofNames (P ++ rest))
        | .error cause => .error (.unresolved given cause)) ∧
    (∀ front tail, (namesOf given).filter (· ≠ ".") = front ++ tail → ".." ∈ tail →
      fs.pathExists cwd (Path.ofNames (origin cwd given ++ front)) = false →
      ∃ cause, fs.settledDestination cwd given = .error (.unresolved given cause)) ∧
    ∀ r, fs.settledDestination cwd given = .ok r →
      r.isAbsolute = true ∧ .current ∉ r.components ∧ .parent ∉ r.components ∧
      ∃ R, PlainPlace R ∧ r = Path.ofNames R ∧
        (fs.EndsLinkFree cwd R ↔ ¬ fs.LinkLeft cwd R) ∧
        (∀ gs, fs.createDirs cwd r = (gs, none) → ∃ D, gs.canonical cwd r = .ok D ∧
          (pathOf D = r ↔ ¬ fs.LinkLeft cwd R) ∧
          ∀ D', gs.canonical cwd given = .ok D' → D' = D) ∧
        (fs.LinkLeft cwd R → ∃ path, absolutePath cwd given = .ok path ∧
          ∃ q ∈ path.ancestors, fs.GivesUp cwd q) := by
  refine ⟨fun path habsolute => settledDestination_eq hw (plainPlace_of_isDirAt hw hcwd) habsolute,
    fun front tail hnames hup hmiss => ?_, fun r hr => ?_⟩
  · cases hr : fs.settledDestination cwd given with
    | error error =>
      obtain ⟨cause, rfl⟩ := settledDestination_eq_error hr
      exact ⟨cause, rfl⟩
    | ok r =>
      obtain ⟨path, top, rest, P, e, hsettling, -, -⟩ := exists_settling hw hcwd hr
      rw [hsettling.pathExists_of_parent hnames hup] at hmiss
      cases hmiss
  · obtain ⟨path, top, rest, P, e, hsettling, hR, rfl⟩ := exists_settling hw hcwd hr
    refine ⟨Path.isAbsolute_ofNames _, ?_, ?_, P ++ rest, hR, rfl, endsLinkFree_iff hR,
      fun gs hmade => ?_, fun hleft => ⟨path, hsettling.absolute,
        hsettling.givesUp_of_linkLeft hw hR hleft⟩⟩
    · simp [Path.components_ofNames hR]
    · simp [Path.components_ofNames hR]
    · obtain ⟨D, m, hD⟩ := exists_made hw hR hmade
      exact ⟨D, canonical_eq_ok_iff.mpr ⟨_, hD.leads⟩, pathOf_eq_iff hw hR hmade hD,
        fun D' => hsettling.place_eq hw hcwd hR hD⟩

/-- The project directory `work` with a link to the newest of its releases. -/
def releaseFiles : FileSystem where
  entries := [(["work"], .dir 0o755), (["work", "r2"], .dir 0o755),
    (["work", "latest"], .link ⟨"r2"⟩)]
  next := 0

/-- A destination below a link and below what is missing, given from the directory it is in. -/
theorem linked_destination_settles :
    releaseFiles.WellFormed ∧ releaseFiles.isDirAt ["work"] = true ∧
      releaseFiles.settledDestination ["work"] ⟨"latest/./new/deep"⟩ = .ok ⟨"/work/r2/new/deep"⟩ ∧
      ∃ D, (releaseFiles.createDirs ["work"] ⟨"/work/r2/new/deep"⟩).1.canonical ["work"]
          ⟨"/work/r2/new/deep"⟩ = .ok D ∧
        ∀ D', (releaseFiles.createDirs ["work"] ⟨"/work/r2/new/deep"⟩).1.canonical ["work"]
          ⟨"latest/./new/deep"⟩ = .ok D' → D' = D := by
  have hw : releaseFiles.WellFormed := by decide
  have hcwd : releaseFiles.isDirAt ["work"] = true := by decide
  have hr : releaseFiles.settledDestination ["work"] ⟨"latest/./new/deep"⟩ =
      .ok ⟨"/work/r2/new/deep"⟩ := by decide +kernel
  have hmade : (releaseFiles.createDirs ["work"] ⟨"/work/r2/new/deep"⟩).2 = none := by
    decide +kernel
  obtain ⟨-, -, -, R, -, -, -, hD, -⟩ :=
    (settledDestination_settles hw hcwd ⟨"latest/./new/deep"⟩).2.2 _ hr
  obtain ⟨D, hcanonical, -, hsame⟩ := hD _ (Prod.ext rfl hmade)
  exact ⟨hw, hcwd, hr, D, hcanonical, hsame⟩

/-- A directory, a link that leads nowhere else, and a link to the directory that goes by it as
often as half the links that are followed, and once more. -/
def roundaboutFiles : FileSystem where
  entries := [(["work"], .dir 0o755), (["work", "real"], .dir 0o755), (["work", "s"], .link ⟨"."⟩),
    (["work", "l"], .link ⟨Text.joinWith "/" (List.replicate (maxLinks / 2 + 1) "s" ++ ["real"])⟩)]
  next := 0

/-- A settled destination in which a link is left, as the way to its end has more links than are
followed. All its directories are there, and it leads elsewhere. -/
theorem link_left_in_settled_destination :
    roundaboutFiles.settledDestination []
        (Path.ofNames (["work"] ++ List.replicate (maxLinks / 2 + 1) "s" ++ ["l"])) =
      .ok ⟨"/work/l"⟩ ∧
    roundaboutFiles.createDirs [] ⟨"/work/l"⟩ = (roundaboutFiles, none) ∧
    roundaboutFiles.canonical [] ⟨"/work/l"⟩ = .ok ["work", "real"] := by
  decide +kernel

end CodeIndex.FileSystem

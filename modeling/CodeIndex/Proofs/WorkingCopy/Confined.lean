import CodeIndex.Proofs.WorkingCopy.Fidelity

/-!
# What a copy may change

A copy below a destination is to touch nothing but its own place and what is below, and the
directories above that it makes. The place is named without links, but it is where the copy goes only
if no link leads from there to another directory. Links stay in the names of a settled destination
where a lookup gives up before it has followed them all.

* `Confined` : what may change;
* `Host.placeBelow_confined` : making a place on a clear way;
* `Host.copy_confined_iff` : a copy is confined, and the project untouched, exactly if the way is
  clear or nothing happens.
-/

namespace CodeIndex

open FileSystem

variable {host : Host} {fs gs hs : FileSystem} {request : Request} {settings : Settings}
  {skip : Exclusion} {copy : WorkingCopy} {S W R : Place} {given source : Path} {name : String}

namespace FileSystem

/-- What is below one of two places that are apart is not below the other. -/
theorem not_prefix_of_apart {q : Place} (hSW : ¬ S <+: W) (hWS : ¬ W <+: S) (hq : S <+: q) :
    ¬ W <+: q :=
  fun hbelow => (List.prefix_or_prefix_of_prefix hq hbelow).elim hSW hWS

/-- Nothing has changed but what is at a place and below it, and directories that were made above. -/
def Confined (fs gs : FileSystem) (W : Place) : Prop :=
  ∀ q, gs.get? q ≠ fs.get? q →
    W <+: q ∨ q <+: W ∧ fs.get? q = none ∧ gs.get? q = some (.dir dirMode)

namespace Confined

theorem refl (fs : FileSystem) (W : Place) : Confined fs fs W := fun _ hq => absurd rfl hq

theorem trans (h : Confined fs gs W) (h' : Confined gs hs W) : Confined fs hs W := by
  intro q hq
  by_cases hfirst : gs.get? q = fs.get? q
  · rcases h' q (by rwa [hfirst]) with hbelow | ⟨habove, hnone, hdir⟩
    · exact Or.inl hbelow
    · exact Or.inr ⟨habove, by rwa [← hfirst], hdir⟩
  · rcases h q hfirst with hbelow | ⟨habove, hnone, hdir⟩
    · exact Or.inl hbelow
    · by_cases hsecond : hs.get? q = gs.get? q
      · exact Or.inr ⟨habove, hnone, by rwa [hsecond]⟩
      · rcases h' q hsecond with hbelow | ⟨-, hnone', -⟩
        · exact Or.inl hbelow
        · rw [hnone'] at hdir
          cases hdir

theorem of_below (h : ∀ q, gs.get? q ≠ fs.get? q → W <+: q) : Confined fs gs W :=
  fun q hq => Or.inl (h q hq)

/-- Removing what is at a place is confined to it. -/
theorem of_removed (h : Removed fs gs W) : Confined fs gs W := by
  refine of_below fun q hq => ?_
  by_contra hnot
  rw [h.get?_eq, if_neg hnot] at hq
  exact hq rfl

theorem of_above (h : DirsAdded fs gs) (habove : ∀ q, gs.get? q ≠ fs.get? q → q <+: W) :
    Confined fs gs W := by
  intro q hq
  rcases h.get?_eq_or q with hsame | hnew
  · exact absurd hsame hq
  · exact Or.inr ⟨habove q hq, hnew⟩

/-- What is apart from the place is untouched. -/
theorem sameBelow (h : Confined fs gs W) (hSW : ¬ S <+: W) (hWS : ¬ W <+: S) :
    SameBelow fs gs S := by
  intro q hq
  by_contra hchanged
  rcases h q hchanged with hbelow | ⟨habove, -⟩
  · exact not_prefix_of_apart hSW hWS hq hbelow
  · exact hSW (hq.trans habove)

/-- Where a link stands on the way, a change that is confined is none: below a link there is nothing,
and what is above it is there. -/
theorem same_of_link (h : Confined fs gs W) (hw : fs.WellFormed) (hg : gs.WellFormed) {q : Place}
    {t : Path} (hq : q <+: W) (hne : q ≠ W) (ht : fs.get? q = some (.link t)) : Same fs gs := by
  have hkept : gs.get? q = some (.link t) := by
    by_contra hchanged
    rw [← ht] at hchanged
    rcases h q hchanged with hbelow | ⟨-, hnone, -⟩
    · exact hne (hq.eq_of_length_le hbelow.length_le)
    · rw [hnone] at ht
      cases ht
  have hnodir : fs.isDirAt q = false ∧ gs.isDirAt q = false := by
    rw [isDirAt, isDirAt, ht, hkept]
    exact ⟨rfl, rfl⟩
  have hnothing : ∀ p, q <+: p → p ≠ q → gs.get? p = fs.get? p := by
    rintro p ⟨rest, rfl⟩ hpq
    have hrest : rest ≠ [] := fun hnil => hpq (by rw [hnil, List.append_nil])
    rw [hw.get?_append_eq_none hrest hnodir.1, hg.get?_append_eq_none hrest hnodir.2]
  intro p
  by_contra hchanged
  rcases h p (Ne.symm hchanged) with hbelow | ⟨habove, hnone, -⟩
  · have hpq : p ≠ q := by
      rintro rfl
      exact hne (hq.eq_of_length_le hbelow.length_le)
    exact hchanged (hnothing p (hq.trans hbelow) hpq).symm
  · rcases List.prefix_or_prefix_of_prefix hq habove with hpre | hpre
    · by_cases hpq : p = q
      · rw [hpq, ht] at hnone
        cases hnone
      · exact hchanged (hnothing p hpre hpq).symm
    · obtain ⟨rest, rfl⟩ := hpre
      by_cases hnil : rest = []
      · rw [hnil, List.append_nil, hnone] at ht
        cases ht
      · have hdir := hw.isDirAt_of_append hnil ht
        rw [isDirAt, hnone] at hdir
        cases hdir

end Confined

/-! ## Making a place on a clear way -/

theorem linkFree_of_isDirAt (hw : fs.WellFormed) (hR : fs.isDirAt R = true) : fs.LinkFree R := by
  obtain ⟨m, hm⟩ := isDirAt_iff.mp hR
  exact hw.linkFree hm rfl

/-- Removing entries leads no link to a directory. -/
theorem Clear.of_cleared {path : Path} {cwd : Place} (h : fs.Clear R)
    (hcleared : Cleared fs cwd path gs) : gs.Clear R := by
  intro q t hq ht
  have hfs := h q t hq (hcleared.get?_of_some ht)
  rw [Bool.eq_false_iff] at hfs ⊢
  intro hdir
  obtain ⟨D, m, hD⟩ := isDir_iff.mp hdir
  exact hfs (isDir_iff.mpr ⟨D, m, lookup_mono (fun p x => hcleared.get?_of_some) hD⟩)

theorem Cleared.confined {cwd : Place} (h : fs.Clear R) (hR : PlainPlace R) (hn : PlainName name)
    (hcleared : Cleared fs cwd (Path.ofNames (R ++ [name])) gs) : Confined fs gs (R ++ [name]) := by
  cases hcleared with
  | nothing => exact Confined.refl fs _
  | @removed _ p e hstat hgone =>
    obtain rfl : p = R ++ [name] := h.place_eq hR hn (stat_eq_ok_iff.mp hstat)
    exact Confined.of_removed hgone

theorem ofNames_injective {p q : Place} (hp : PlainPlace p) (hq : PlainPlace q)
    (h : Path.ofNames p = Path.ofNames q) : p = q := by
  rw [← namesOf_ofNames hp, h, namesOf_ofNames hq]

/-- What passes the comparison by steps is apart. -/
theorem apart_of_overlaps (hW : PlainPlace W) (hS : PlainPlace S)
    (h : overlaps (Path.ofNames W) (Path.ofNames S) = false) : ¬ S <+: W ∧ ¬ W <+: S := by
  rw [overlaps, Path.startsWith_ofNames hW hS, Path.startsWith_ofNames hS hW,
    Bool.or_eq_false_iff, Bool.eq_false_iff, Bool.eq_false_iff, Ne, Ne,
    List.isPrefixOf_iff_prefix, List.isPrefixOf_iff_prefix] at h
  exact h

end FileSystem

namespace Host

/-- Making a place on a clear way is confined to it, and when it succeeds the place is free and
apart from the project. -/
theorem placeBelow_confined (hw : fs.WellFormed) (hname : IsName name) (hR : PlainPlace R)
    (hsettled : fs.settledDestination host.cwd given = .ok (Path.ofNames R))
    {r : Except CopyError WorkingCopy} (h : host.placeBelow given source name fs = (r, gs)) :
    gs.WellFormed ∧ (fs.Clear R → Confined fs gs (R ++ [name])) ∧
      (gs = fs ∨ overlaps (Path.ofNames (R ++ [name])) source = false) ∧
      ∀ copy, r = .ok copy → overlaps (Path.ofNames (R ++ [name])) source = false ∧
        (fs.Clear R → gs.Free host.cwd copy.path (R ++ [name])) := by
  have hplain := hname.toPlainName
  rcases placeBelow_cases hw hplain host given source with ⟨e, he⟩ |
    ⟨R', fs₁, hsettled', hR', hover, hcleared, hend⟩
  · rw [he] at h
    obtain ⟨rfl, rfl⟩ := Prod.mk.inj h
    exact ⟨hw, fun _ => Confined.refl fs _, Or.inl rfl, fun copy hok => by cases hok⟩
  · obtain rfl : R' = R := by
      rw [hsettled] at hsettled'
      exact (ofNames_injective hR hR' (Except.ok.inj hsettled')).symm
    have hw₁ := hcleared.wellFormed hw
    have hadded := dirsAdded_createDirs fs₁ host.cwd (Path.ofNames R')
    have hwg := hw₁.createDirs host.cwd (Path.ofNames R')
    rcases hmade : fs₁.createDirs host.cwd (Path.ofNames R') with ⟨hs, oe⟩
    rw [hmade] at hend hadded hwg
    have hconf : fs.Clear R' → Confined fs hs (R' ++ [name]) := by
      intro hclear
      have habove := ((hclear.of_cleared hcleared).createDirs hw₁ hR' hmade).1
      exact (hcleared.confined hclear hR' hplain).trans (Confined.of_above hadded fun q hq =>
        (habove q hq).trans (List.prefix_append R' [name]))
    rcases hend with ⟨e, he⟩ | ⟨hnone, hok⟩
    · rw [he] at h
      obtain ⟨rfl, rfl⟩ := Prod.mk.inj h
      exact ⟨hwg, hconf, Or.inr hover, fun copy hok => by cases hok⟩
    · have hplace := hok
      rw [hok] at h
      obtain ⟨rfl, rfl⟩ := Prod.mk.inj h
      refine ⟨hwg, hconf, Or.inr hover, fun copy hcopy => ⟨hover, fun hclear => ?_⟩⟩
      obtain rfl := Except.ok.inj hcopy
      -- The place is free, and no link leads away from it.
      obtain ⟨W, hready⟩ := ready_of_placeBelow hw hname hplace
      have hdir := ((hclear.of_cleared hcleared).createDirs hw₁ hR' hmade).2 hnone
      rcases hready.free with hv | hlong
      · have hclear' := (linkFree_of_isDirAt hwg hdir).clear
        have hWplace : W = R' ++ [name] := hclear'.place_eq hR' hplain hv
        rw [hWplace] at hv
        exact Or.inl hv
      · exact Or.inr hlong

/-- Making a place on a clear way leaves the project alone. -/
theorem sameBelow_placeBelow (hw : fs.WellFormed) (hS : fs.isDirAt S = true) (hname : IsName name)
    (hR : PlainPlace R)
    (hsettled : fs.settledDestination host.cwd given = .ok (Path.ofNames R)) (hclear : fs.Clear R)
    {r : Except CopyError WorkingCopy}
    (h : host.placeBelow given (Path.ofNames S) name fs = (r, gs)) : SameBelow fs gs S := by
  obtain ⟨-, hconf, hor, -⟩ := placeBelow_confined hw hname hR hsettled h
  obtain ⟨m, hm⟩ := isDirAt_iff.mp hS
  have hWplain : PlainPlace (R ++ [name]) := by simpa using ⟨hR, hname.toPlainName⟩
  rcases hor with rfl | hover
  · exact fun _ _ => rfl
  · obtain ⟨hSW, hWS⟩ := apart_of_overlaps hWplain (hw.plainPlace hm) hover
    exact (hconf hclear).sameBelow hSW hWS

/-- A place below a destination is never temporary. -/
theorem placement_of_placeBelow (hw : fs.WellFormed) (hname : PlainName name)
    (h : host.placeBelow given source name fs = (.ok copy, gs)) :
    ∃ d, copy.placement = .chosen d := by
  rcases placeBelow_cases hw hname host given source with ⟨e, he⟩ |
    ⟨R, fs₁, -, -, -, -, ⟨e, he⟩ | ⟨-, he⟩⟩
  · rw [he] at h
    cases h
  · rw [he] at h
    cases h
  · rw [he] at h
    obtain ⟨hcopy, -⟩ := Prod.mk.inj h
    exact ⟨_, congrArg WorkingCopy.placement (Except.ok.inj hcopy).symm⟩

/-- Where a destination cannot be settled, nothing happens. -/
theorem placeBelow_of_unsettled {e : CopyError}
    (h : fs.settledDestination host.cwd given = .error e) :
    host.placeBelow given source name fs = (.error e, fs) :=
  Effect.bind_of_error _ (by rw [Effect.examine, h])

/-! ## Copying to a destination -/

/-- The place at a destination for the copy of a project: it has the name of the project. -/
def copyPlace (R S : Place) : Place := R ++ S.getLast?.toList

/-- Filling a place that is ready changes nothing but what is there and below. -/
theorem fillWorkingCopy_frame {d : Path} (hw : fs.WellFormed)
    (hend : withoutEndSlashes copy.path = copy.path) (hplace : copy.placement = .chosen d)
    (host : Host) (skip : Exclusion) (source : Path) (hfree : fs.Free host.cwd copy.path W) :
    (host.fillWorkingCopy skip source copy fs).2.WellFormed ∧
      ∀ q, (host.fillWorkingCopy skip source copy fs).2.get? q ≠ fs.get? q → W <+: q := by
  have hframe := copyBelow_frame hw hend hfree skip source
  rcases host.fillWorkingCopy_cases skip source copy fs with ⟨gs, hcopy, hok⟩ |
    ⟨e, gs, hcopy, hgive⟩
  · rw [hok]
    rwa [hcopy] at hframe
  · rw [hgive]
    rw [hcopy] at hframe
    rcases host.abandon_cases copy e gs with he | ⟨root, -, htemp, -⟩
    · rwa [he]
    · rw [hplace] at htemp
      cases htemp

/-- However a copy to a destination ends, on a clear way it is confined to its place and leaves the
project alone. -/
theorem copyProject_confined (hw : fs.WellFormed) (hS : fs.isDirAt S = true)
    (hsource : request.source = Path.ofNames S) (hdest : request.destination = some given)
    (hR : PlainPlace R)
    (hsettled : fs.settledDestination host.cwd given = .ok (Path.ofNames R))
    {skip? : Except CopyError Exclusion} {r : Except CopyError WorkingCopy}
    (h : host.copyProject skip? request settings fs = (r, gs)) :
    gs.WellFormed ∧ (fs.Clear R → Confined fs gs (copyPlace R S) ∧ SameBelow fs gs S) := by
  rcases host.copyProject_cases skip? request settings fs with ⟨e, he⟩ |
    ⟨name, skip, hproject, -, hplaced⟩
  · rw [he] at h
    obtain ⟨-, rfl⟩ := Prod.mk.inj h
    exact ⟨hw, fun _ => ⟨Confined.refl fs _, fun _ _ => rfl⟩⟩
  rw [hsource] at hproject
  obtain ⟨hname, T, rfl⟩ := projectName_eq_ok hw hS hproject
  have hplace : copyPlace R (T ++ [name]) = R ++ [name] := by simp [copyPlace]
  have hbelow : host.placeWorkingCopy request settings name fs =
      host.placeBelow given (Path.ofNames (T ++ [name])) name fs := by
    unfold placeWorkingCopy
    rw [hdest, hsource]
  rw [hplace]
  rcases hplaced with ⟨e, hs, hfail, he⟩ | ⟨copy, hs, hok, hfill⟩
  · rw [he] at h
    obtain ⟨-, rfl⟩ := Prod.mk.inj h
    rw [hbelow] at hfail
    obtain ⟨hwg, hconf, -⟩ := placeBelow_confined hw hname hR hsettled hfail
    exact ⟨hwg, fun hclear =>
      ⟨hconf hclear, sameBelow_placeBelow hw hS hname hR hsettled hclear hfail⟩⟩
  · rw [hbelow] at hok
    obtain ⟨hwh, hconf, -, hfree⟩ := placeBelow_confined hw hname hR hsettled hok
    obtain ⟨W, hready⟩ := ready_of_placeBelow hw hname hok
    obtain ⟨d, hd⟩ := placement_of_placeBelow hw hname.toPlainName hok
    obtain ⟨hover, hfree⟩ := hfree copy rfl
    have hframe : ∀ W, hs.Free host.cwd copy.path W →
        gs.WellFormed ∧ ∀ q, gs.get? q ≠ hs.get? q → W <+: q := by
      intro W hW
      have hfilled := fillWorkingCopy_frame hwh hready.noEndSlash hd host skip request.source hW
      rwa [← hfill, h] at hfilled
    refine ⟨(hframe W hready.free).1, fun hclear => ?_⟩
    have hall := (hconf hclear).trans (Confined.of_below (hframe _ (hfree hclear)).2)
    obtain ⟨m, hm⟩ := isDirAt_iff.mp hS
    have hWplain : PlainPlace (R ++ [name]) := by simpa using ⟨hR, hname.toPlainName⟩
    obtain ⟨hSW, hWS⟩ := apart_of_overlaps hWplain (hw.plainPlace hm) hover
    exact ⟨hall, hall.sameBelow hSW hWS⟩

/-- Nothing happens to a project without a name, or when the destination cannot be settled. -/
theorem copyProject_snd_eq (skip? : Except CopyError Exclusion) (settings : Settings)
    (hdest : request.destination = some given)
    (h : (∃ e, host.projectName fs request.source = .error e) ∨
      ∃ e, fs.settledDestination host.cwd given = .error e) :
    (host.copyProject skip? request settings fs).2 = fs := by
  rcases host.copyProject_cases skip? request settings fs with ⟨e, he⟩ |
    ⟨name, skip, hproject, -, hplaced⟩
  · rw [he]
  rcases h with ⟨e, he⟩ | ⟨e, he⟩
  · rw [he] at hproject
    cases hproject
  · have hfail : host.placeWorkingCopy request settings name fs = (.error e, fs) := by
      unfold placeWorkingCopy
      rw [hdest]
      exact placeBelow_of_unsettled he
    rcases hplaced with ⟨e', hs, hplace, hres⟩ | ⟨copy, hs, hplace, -⟩
    · rw [hres]
      rw [hfail] at hplace
      exact (Prod.mk.inj hplace).2.symm
    · rw [hfail] at hplace
      cases hplace

/-- A copy to a destination is confined to its place there and leaves the project alone exactly if
no link left in the settled destination leads to a directory, or else if nothing happens at all, as
when the destination cannot be settled. -/
theorem copy_confined_iff (hw : fs.WellFormed) (hS : fs.isDirAt S = true)
    (hsource : request.source = Path.ofNames S) (hdest : request.destination = some given) :
    (∀ e, fs.settledDestination host.cwd given = .error e →
      (host.makeWorkingCopy request settings fs).2 = fs) ∧
    ∀ r, fs.settledDestination host.cwd given = .ok r → ∃ R, PlainPlace R ∧ r = Path.ofNames R ∧
      (Confined fs (host.makeWorkingCopy request settings fs).2 (copyPlace R S) ∧
          SameBelow fs (host.makeWorkingCopy request settings fs).2 S ↔
        fs.Clear R ∨ Same fs (host.makeWorkingCopy request settings fs).2) := by
  refine ⟨fun e he => copyProject_snd_eq _ settings hdest (Or.inr ⟨e, he⟩), fun r hr => ?_⟩
  obtain ⟨R, hR, rfl⟩ := settledDestination_eq_ok hw hr
  refine ⟨R, hR, rfl, ?_⟩
  unfold makeWorkingCopy
  rcases h : host.copyProject (exclusion settings.copyExclude) request settings fs with ⟨c, gs⟩
  dsimp only
  obtain ⟨hg, hconf⟩ := copyProject_confined hw hS hsource hdest hR hr h
  constructor
  · rintro ⟨hconfined, -⟩
    cases hproject : host.projectName fs request.source with
    | error e =>
      have hnone := copyProject_snd_eq (exclusion settings.copyExclude) settings hdest
        (Or.inl ⟨e, hproject⟩)
      rw [h] at hnone
      rw [show gs = fs from hnone]
      exact Or.inr (Same.refl fs)
    | ok name =>
      rw [hsource] at hproject
      obtain ⟨-, T, rfl⟩ := projectName_eq_ok hw hS hproject
      rw [copyPlace, List.getLast?_concat, Option.toList_some] at hconfined
      by_cases hclear : fs.Clear R
      · exact Or.inl hclear
      · -- Some link is on the way, so that nothing can change and be confined.
        have hlink : ∃ q t, q <+: R ∧ fs.get? q = some (.link t) := by
          by_contra hno
          exact hclear (LinkFree.clear fun q t hq ht => hno ⟨q, t, hq, ht⟩)
        obtain ⟨q, t, hq, ht⟩ := hlink
        have hne : q ≠ R ++ [name] := by
          rintro rfl
          have hlength := hq.length_le
          rw [List.length_append, List.length_singleton] at hlength
          omega
        exact Or.inr (hconfined.same_of_link hw hg (hq.trans (List.prefix_append R [name])) hne ht)
  · rintro (hclear | hsame)
    · exact hconf hclear
    · refine ⟨fun q hq => absurd (hsame q).symm hq, fun q _ => (hsame q).symm⟩

/-! ## Two destinations -/

/-- Below its destination, the copy that replaces an older one is all that changes. -/
theorem older_copy_confined :
    Confined projectFiles (idleHost.makeWorkingCopy copyRequest {} projectFiles).2
        ["out", "proj"] ∧
      SameBelow projectFiles (idleHost.makeWorkingCopy copyRequest {} projectFiles).2
        ["work", "proj"] := by
  have hsettled : projectFiles.settledDestination idleHost.cwd ⟨"/out"⟩ =
      .ok (Path.ofNames ["out"]) := by decide +kernel
  have hsource : copyRequest.source = Path.ofNames ["work", "proj"] := by decide
  obtain ⟨R, hR, hr, hiff⟩ :=
    (copy_confined_iff (by decide) (by decide) hsource rfl).2 _ hsettled
  have hw : projectFiles.WellFormed := by decide
  have hout : projectFiles.get? ["out"] = some (.dir 0o755) := by decide
  obtain rfl : ["out"] = R := ofNames_injective (hw.plainPlace hout) hR hr
  exact hiff.mpr (Or.inl (linkFree_of_isDirAt hw (isDirAt_iff.mpr ⟨_, hout⟩)).clear)

/-- A project, a link that leads nowhere else, and a link to the project that goes by it. -/
def chainedFiles : FileSystem where
  entries := [(["work"], .dir 0o755), (["work", "projects"], .dir 0o755),
    (["work", "projects", "proj"], .dir 0o755),
    (["work", "projects", "proj", "a.txt"], .file 0 0o644 [120]),
    (["work", "s"], .link ⟨"."⟩), (["work", "l"], .link ⟨"s/s/s/s/projects"⟩)]
  next := 1

/-- The project is to be copied to where it is, by a way of more links than are followed. -/
def chainedRequest : Request where
  source := ⟨"/work/projects/proj"⟩
  analyzer := .primary
  destination := some (Path.ofNames (["work"] ++ List.replicate (maxLinks - 2) "s" ++ ["l"]))
  jsonOutput := none
  keepCopy := false
  timeout := none

/-- The project is gone after a copy that is said to have succeeded. -/
theorem chained_destination_loses_project :
    (idleHost.makeWorkingCopy chainedRequest {} chainedFiles).1 =
        .ok ⟨⟨"/work/l/proj"⟩, .chosen ⟨"/work/l"⟩⟩ ∧
      chainedFiles.get? ["work", "projects", "proj", "a.txt"] = some (.file 0 0o644 [120]) ∧
      (idleHost.makeWorkingCopy chainedRequest {} chainedFiles).2.get?
        ["work", "projects", "proj", "a.txt"] = none := by
  decide +kernel

end Host

end CodeIndex

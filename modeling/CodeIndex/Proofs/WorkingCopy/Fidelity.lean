import CodeIndex.Proofs.WorkingCopy.Steps

/-!
# What a working copy has

A copy that succeeds stands at a place that was made free for it, so it depends on the project and on
what is excluded, and not on what was there before.

* `leads_of_copyBelow` : a project that could be copied is where it was, and the copy stands;
* `Copied.get?_eq` : an entry is copied exactly if nothing on the way to it is excluded;
* `Host.copy_faithful` : the entries of a copy.
-/

namespace CodeIndex

open FileSystem

variable {host : Host} {fs gs hs : FileSystem} {request : Request} {settings : Settings}
  {skip : Exclusion} {copy : WorkingCopy} {cwd S W : Place} {path : Path}

namespace FileSystem

/-- Directories have not become anything else, so the path of one leads to a directory or nowhere. -/
theorem Swept.lookup_dir (h : Swept fs gs) (hw : fs.WellFormed) (hS : fs.isDirAt S = true)
    {r : Place × Entry} (hstat : gs.stat cwd (Path.ofNames S) true = .ok r) :
    ∃ m, gs.lookup cwd (Path.ofNames S) true = .ok (.entry S (.dir m)) := by
  obtain ⟨p, e⟩ := r
  have hlook := stat_eq_ok_iff.mp hstat
  obtain ⟨m, hm⟩ := isDirAt_iff.mp hS
  have hplain := hw.plainPlace hm
  have hfree : gs.LinkFree S := by
    rintro q t ⟨rest, rfl⟩ ht
    rcases h q _ ht with hlink | hdir
    · by_cases hnil : rest = []
      · rw [hnil, List.append_nil, hlink] at hm
        cases hm
      · have hq := hw.isDirAt_of_append hnil hm
        rw [isDirAt, hlink] at hq
        cases hq
    · cases hdir
  obtain rfl : p = S := hfree.place_eq hplain hlook
  have he := get?_of_lookup hlook
  rcases h p e he with hsame | hdir
  · rw [hm] at hsame
    obtain rfl := Option.some.inj hsame
    exact ⟨m, hlook⟩
  · obtain ⟨m', rfl⟩ := Entry.isDir_iff.mp hdir
    exact ⟨m', hlook⟩

/-- The entries of a copy, seen from the file system in which its place was made. -/
theorem Copied.get?_eq (h : Copied fs gs S W (fs.listingAt skip S)) (hw : fs.WellFormed)
    {ns : List String} (hne : ns ≠ []) : (gs.get? (W ++ ns)).map Entry.likeness =
      if Kept skip ns then (fs.get? (S ++ ns)).map Entry.likeness else none := by
  have hlisted : ns ∈ (fs.listingAt skip S).map Listed.names ↔
      Kept skip ns ∧ fs.get? (S ++ ns) ≠ none := by
    rw [List.mem_map, listed_iff hw]
    simp [hne]
  rw [h.inside ns hne]
  by_cases hkept : Kept skip ns
  · rw [if_pos hkept]
    by_cases hnone : fs.get? (S ++ ns) = none
    · rw [if_neg fun hmem => (hlisted.mp hmem).2 hnone, hnone, Option.map_none]
    · rw [if_pos (hlisted.mpr ⟨hkept, hnone⟩)]
  · rw [if_neg hkept, if_neg fun hmem => hkept (hlisted.mp hmem).1]

/-- A copy that succeeds has found the project where it was, and its own directory stands. -/
theorem leads_of_copyBelow (hw : fs.WellFormed) (hS : fs.isDirAt S = true) (hswept : Swept fs hs)
    (hwh : hs.WellFormed) (hend : withoutEndSlashes path = path) (hfree : hs.Free cwd path W)
    (h : copyBelow cwd skip (Path.ofNames S) path hs = (.ok (), gs)) :
    hs.lookup cwd path false = .ok (.vacant W) ∧
      (∃ m, (hs.withDir W).lookup cwd (Path.ofNames S) true = .ok (.entry S (.dir m))) ∧
      ∃ m, gs.stat cwd path true = .ok (W, .dir m) := by
  rcases hfree with hv | hlong
  · have hcopied := h
    rw [copyBelow_of_vacant hend hv, listing_eq (hwh.withDir hv)] at hcopied
    cases hstat : (hs.withDir W).stat cwd (Path.ofNames S) true with
    | error e =>
      rw [hstat] at hcopied
      cases hcopied
    | ok r =>
      obtain ⟨m, hlook⟩ := (hswept.trans (dirsAdded_withDir hv).swept).lookup_dir hw hS hstat
      obtain ⟨m', hm'⟩ := (copied_of_copyBelow hwh hend (Or.inl hv) hlook h).leads_target
        (route_withDir hwh hv hlook)
      exact ⟨hv, ⟨m, hlook⟩, m', stat_eq_ok_iff.mpr hm'⟩
  · rw [copyBelow_of_long hend hlong] at h
    cases h

end FileSystem

namespace Host

/-- A copy that succeeds has exactly the entries of the project on whose way nothing is excluded,
files with their bytes and permission bits and links with their targets, whatever was at its place
before. -/
theorem copy_faithful (hw : fs.WellFormed) (hS : fs.isDirAt S = true)
    (hsource : request.source = Path.ofNames S)
    (h : host.copyProject (.ok skip) request settings fs = (.ok copy, gs)) :
    ∃ W m, gs.stat host.cwd copy.path true = .ok (W, .dir m) ∧
      (¬ S <+: W → ∀ ns ≠ [], (gs.get? (W ++ ns)).map Entry.likeness =
        if Kept skip ns then (fs.get? (S ++ ns)).map Entry.likeness else none) := by
  obtain ⟨name, skip', hs, hskip, hname, hplace, -, hcopy⟩ := copyProject_eq_ok h
  obtain rfl := Except.ok.inj hskip
  rw [hsource] at hname hcopy
  obtain ⟨W, hready⟩ := ready_of_placeWorkingCopy hw (projectName_eq_ok hw hS hname).1 hplace
  -- The project was listed after the directory of the copy had been made.
  obtain ⟨hv, ⟨m, hlook⟩, m', hstands⟩ := leads_of_copyBelow hw hS hready.swept hready.wellFormed
    hready.noEndSlash hready.free hcopy
  refine ⟨W, m', hstands, fun hSW ns hne => ?_⟩
  have hcopied := copied_of_copyBelow hready.wellFormed hready.noEndSlash hready.free hlook hcopy
  rw [hcopied.get?_eq (route_withDir hready.wellFormed hv hlook).wellFormed hne]
  have hWne : ∀ ns, S ++ ns ≠ W := fun ns heq => hSW ⟨ns, heq⟩
  have hbase : ∀ ns, (hs.withDir W).get? (S ++ ns) = hs.get? (S ++ ns) := by
    intro ns
    obtain ⟨d, n, hW, -⟩ := vacant_of_lookup hv
    rw [get?_put (by simp [hW]), if_neg (hWne ns)]
  have hdir : hs.isDirAt S = true := by
    have hb := hbase []
    rw [List.append_nil] at hb
    exact isDirAt_iff.mpr ⟨m, hb ▸ get?_of_lookup hlook⟩
  rw [hbase, hready.sameBelow S hdir hSW _ (List.prefix_append S ns)]

/-! ## A copy over an older one -/

/-- A project, and an older copy of it at a destination. -/
def projectFiles : FileSystem where
  entries := [(["work"], .dir 0o755), (["work", "proj"], .dir 0o755),
    (["work", "proj", "a.txt"], .file 0 0o640 [120]), (["work", "proj", "log.tmp"], .file 1 0o644 []),
    (["work", "proj", "run"], .link ⟨"a.txt"⟩), (["out"], .dir 0o755), (["out", "proj"], .dir 0o755),
    (["out", "proj", "old.txt"], .file 2 0o644 [])]
  next := 3

/-- The project is to be copied to the destination. -/
def copyRequest : Request := ⟨⟨"/work/proj"⟩, .primary, some ⟨"/out"⟩, none, false, none⟩

/-- What came of copying the project without its log. -/
def copyRun : Except CopyError WorkingCopy × FileSystem :=
  idleHost.copyProject (.ok fun ns => ns == ["log.tmp"]) copyRequest {} projectFiles

/-- The log is left out, and nothing of the older copy stays. -/
theorem older_copy_replaced :
    (copyRun.2.get? ["out", "proj", "old.txt"]).map Entry.likeness = none ∧
      (copyRun.2.get? ["out", "proj", "log.tmp"]).map Entry.likeness = none ∧
      (copyRun.2.get? ["out", "proj", "a.txt"]).map Entry.likeness = some (.file 0 0o640 [120]) ∧
      (copyRun.2.get? ["out", "proj", "run"]).map Entry.likeness = some (.link ⟨"a.txt"⟩) := by
  have hok : copyRun = (.ok ⟨⟨"/out/proj"⟩, .chosen ⟨"/out"⟩⟩, copyRun.2) :=
    Prod.ext (by decide +kernel) rfl
  have hplace : copyRun.2.stat idleHost.cwd ⟨"/out/proj"⟩ true =
      .ok (["out", "proj"], .dir dirMode) := by decide +kernel
  obtain ⟨W, m, hstat, h⟩ := copy_faithful (S := ["work", "proj"]) (by decide) (by decide)
    (by decide) hok
  obtain rfl : ["out", "proj"] = W := congrArg Prod.fst (Except.ok.inj (hplace.symm.trans hstat))
  have hentries := h (by decide)
  exact ⟨(hentries ["old.txt"] (by decide)).trans (by decide),
    (hentries ["log.tmp"] (by decide)).trans (by decide),
    (hentries ["a.txt"] (by decide)).trans (by decide),
    (hentries ["run"] (by decide)).trans (by decide)⟩

end Host

end CodeIndex

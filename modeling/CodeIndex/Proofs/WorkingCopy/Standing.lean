import CodeIndex.Proofs.FileSystem.Passing
import CodeIndex.Proofs.FileSystem.Standing
import CodeIndex.Proofs.WorkingCopy.Confined

/-!
# Copies that stand

However a copy ends, the directory made for it is there until the copy is given up, and what is
copied is in it.

* `Host.isName_of_projectName` : the name of any project can be that of its copy;
* `stands_copyBelow` : the place that is filled becomes a directory;
* `Host.InTemp` : a temporary directory, with the place for the copy in it;
* `Host.stands_of_copyProject` : a copy that was made stands where its place was ready.
-/

namespace CodeIndex

open FileSystem

variable {host : Host} {fs gs hs : FileSystem} {request : Request} {settings : Settings}
  {skip : Exclusion} {skip? : Except CopyError Exclusion} {copy : WorkingCopy} {cwd F W X : Place}
  {name : String} {source target root : Path}

namespace FileSystem

/-- The last name of a path that leads somewhere can be that of an entry. -/
theorem isName_of_fileName? {p : Place} {e : Entry} (hstat : fs.stat cwd source true = .ok (p, e))
    (h : source.fileName? = some name) : IsName name := by
  obtain ⟨hmem, hplain⟩ := Path.mem_namesOf_of_fileName? h
  obtain ⟨-, -, k, -, hf⟩ := lookup_eq_ok_iff.mp (stat_eq_ok_iff.mp hstat)
  have hstep : name ∈ steps source := by
    unfold steps
    split
    · exact List.mem_append_left _ hmem
    · exact hmem
  exact ⟨hplain, hf.short hstep hplain.ne_dot hplain.ne_dotDot⟩

/-- What is copied to a free place is in the directory that is made there. -/
theorem isDirAt_copyBelow (hw : fs.WellFormed) (hend : withoutEndSlashes target = target)
    (hv : fs.lookup cwd target false = .ok (.vacant W)) (skip : Exclusion) (source : Path) :
    (copyBelow cwd skip source target fs).2.isDirAt W = true := by
  have hmade : (fs.withDir W).isDirAt W = true :=
    isDirAt_iff.mpr ⟨dirMode, get?_of_lookup (lookup_put (e := .dir dirMode) hv rfl)⟩
  rw [copyBelow_of_vacant hend hv, listing_eq (hw.withDir hv)]
  cases hstat : (fs.withDir W).stat cwd source true with
  | error e => exact hmade
  | ok r =>
    obtain ⟨S, x⟩ := r
    cases x with
    | dir m =>
      have hr := route_withDir hw hv (stat_eq_ok_iff.mp hstat)
      obtain ⟨done, hcopied, -⟩ :=
        hr.copied.run hr (List.nil_append ((fs.withDir W).listingAt skip S)).symm
      obtain ⟨m', hm'⟩ := hcopied.leads_target hr
      exact isDirAt_iff.mpr ⟨m', get?_of_lookup hm'⟩
    | _ => exact hmade

/-- The place that is filled becomes a directory, and the ways that were there are there. -/
theorem stands_copyBelow (hw : fs.WellFormed) (hend : withoutEndSlashes target = target)
    (hv : fs.lookup cwd target false = .ok (.vacant W)) (skip : Exclusion) (source : Path) :
    Stands fs (copyBelow cwd skip source target fs).2 W := by
  obtain ⟨hwc, hbelow⟩ := copyBelow_frame hw hend (Or.inl hv) skip source
  refine ⟨hwc, (KeepsWays.refl fs).below (fun q hq => ?_) hbelow,
    isDirAt_copyBelow hw hend hv skip source⟩
  exact hw.get?_eq_none_of_vacant hv hq

/-- Filling a place in a directory that is new leaves the directory standing. -/
theorem Stands.copyBelow (h : Stands fs gs X) (hnew : ∀ q, X <+: q → fs.get? q = none)
    (hXW : X <+: W) (hend : withoutEndSlashes target = target) (hfree : gs.Free cwd target W)
    (hvacant : gs.get? W = none) (skip : Exclusion) (source : Path) :
    Stands fs (FileSystem.copyBelow cwd skip source target gs).2 X := by
  obtain ⟨hwc, hbelow⟩ := copyBelow_frame h.wellFormed hend hfree skip source
  exact h.within hnew hXW hwc (KeepsOutside.of_below hvacant hbelow)

end FileSystem

namespace Host

/-- The name of any project can be that of its copy. -/
theorem isName_of_projectName (h : host.projectName fs source = .ok name) : IsName name := by
  unfold projectName at h
  split at h
  · cases h
  · next hexists =>
    split at h
    · cases h
    · split at h
      · next n hname =>
        obtain rfl := Except.ok.inj h
        rw [Bool.not_eq_true', Bool.not_eq_false] at hexists
        obtain ⟨p, e, hstat⟩ := pathExists_iff.mp hexists
        exact isName_of_fileName? hstat hname
      · cases h

/-- The place that is made for a copy is that of a project with a name. -/
theorem prepareCopy_eq_ok
    (h : host.prepareCopy skip? request settings fs = (.ok (skip, copy), gs)) :
    ∃ name, IsName name ∧ host.placeWorkingCopy request settings name fs = (.ok copy, gs) := by
  rcases host.prepareCopy_cases skip? request settings fs with ⟨e, he⟩ |
    ⟨name, skip', hname, -, ⟨e, hs, -, he⟩ | ⟨copy', hs, hplace, hok⟩⟩
  · rw [he] at h
    cases h
  · rw [he] at h
    cases h
  · rw [hok] at h
    obtain ⟨hcopy, rfl⟩ := Prod.mk.inj h
    obtain ⟨-, rfl⟩ := Prod.mk.inj (Except.ok.inj hcopy)
    exact ⟨name, isName_of_projectName hname, hplace⟩

/-! ## Temporary directories -/

theorem isAbsolute_tempPath (host : Host) (start : String) (draw : Nat) :
    (host.tempPath start draw).isAbsolute = true :=
  isAbsolute_join (isAbsolute_join (Path.isAbsolute_ofNames host.cwd) host.tempDir) _

/-- A temporary directory has a name that was drawn for it. -/
theorem exists_draw_of_makeTempDir {start : String} {draws draw : Nat}
    (h : host.makeTempDir start draws draw fs = (.ok root, gs)) :
    ∃ drawn, root = host.tempPath start drawn := by
  induction draws generalizing draw with
  | zero =>
    unfold makeTempDir at h
    cases h
  | succ draws ih =>
    unfold makeTempDir at h
    dsimp only at h
    cases hmade : fs.createDir host.cwd (host.tempPath start draw) 0o700 with
    | ok hs =>
      rw [hmade] at h
      obtain ⟨hroot, -⟩ := Prod.mk.inj h
      exact ⟨draw, (Except.ok.inj hroot).symm⟩
    | error e =>
      rw [hmade] at h
      dsimp only at h
      split at h
      · exact ih h
      · cases h

theorem isAbsolute_of_makeTempDir {start : String} {draws draw : Nat}
    (h : host.makeTempDir start draws draw fs = (.ok root, gs)) : root.isAbsolute = true := by
  obtain ⟨drawn, rfl⟩ := exists_draw_of_makeTempDir h
  exact host.isAbsolute_tempPath start drawn

/-- A temporary directory has been made at a free place, with a place for the copy in it. -/
structure InTemp (host : Host) (fs gs : FileSystem) (copy : WorkingCopy) (root : Path) (F : Place)
    (name : String) : Prop where
  copy_eq : copy = ⟨root.child name, .temporary root⟩
  isName : IsName name
  isAbsolute : root.isAbsolute = true
  vacant : fs.lookup host.cwd (withoutEndSlashes root) false = .ok (.vacant F)
  files : gs = fs.put F (.dir 0o700)
  ready : Ready fs gs host.cwd (root.child name) (F ++ [name])

/-- Without a destination, the place for a copy is in a temporary directory. -/
theorem inTemp_of_placeWorkingCopy (hw : fs.WellFormed) (hname : IsName name)
    (hdest : request.destination = none)
    (h : host.placeWorkingCopy request settings name fs = (.ok copy, gs)) :
    ∃ root F, InTemp host fs gs copy root F name := by
  unfold placeWorkingCopy at h
  rw [hdest] at h
  dsimp only at h
  rw [Effect.bind_apply] at h
  rcases hroot : host.makeTempDir settings.tempPrefix maxDraws 0 fs with ⟨e | root, hs⟩
  · rw [hroot] at h
    cases h
  · rw [hroot] at h
    obtain ⟨hcopy, rfl⟩ := Prod.mk.inj h
    obtain rfl := Except.ok.inj hcopy
    obtain ⟨F, hready, -, hv, hput⟩ := ready_of_createDir hw hname (makeTempDir_eq_ok hroot)
    exact ⟨root, F, rfl, hname, isAbsolute_of_makeTempDir hroot, hv, hput, hready⟩

namespace InTemp

variable {root : Path}

theorem get?_eq_none (h : InTemp host fs gs copy root F name) (hw : fs.WellFormed) :
    ∀ q, F <+: q → fs.get? q = none := fun _ hq => hw.get?_eq_none_of_vacant h.vacant hq

/-- The temporary directory stands when it has been made. -/
theorem stands (h : InTemp host fs gs copy root F name) (hw : fs.WellFormed) :
    Stands fs gs F := by
  obtain ⟨d, n, rfl, -, -, -⟩ := vacant_of_lookup h.vacant
  have hput : ∀ q, gs.get? q = if q = d ++ [n] then some (.dir 0o700) else fs.get? q := by
    intro q
    rw [h.files, get?_put (by simp)]
  refine ⟨h.ready.wellFormed, KeepsWays.of_mono fun q x hx => ?_, ?_⟩
  · rw [hput, if_neg, hx]
    rintro rfl
    rw [h.get?_eq_none hw _ (List.prefix_refl _)] at hx
    cases hx
  · rw [FileSystem.isDirAt, hput, if_pos rfl]
    rfl

/-- The temporary directory stands while the copy in it is filled. -/
theorem stands_copyBelow (h : InTemp host fs gs copy root F name) (hw : fs.WellFormed)
    (skip : Exclusion) (source : Path) :
    Stands fs (copyBelow host.cwd skip source copy.path gs).2 F := by
  have hvacant : gs.get? (F ++ [name]) = none := by
    have hdir : fs.isDirAt F = false := by
      rw [FileSystem.isDirAt, h.get?_eq_none hw F (List.prefix_refl F)]
      rfl
    obtain ⟨d, n, hF, -, -, -⟩ := vacant_of_lookup h.vacant
    rw [h.files, get?_put (by simp [hF]), if_neg (by simp)]
    exact hw.get?_append_eq_none (List.cons_ne_nil name []) hdir
  have hpath : copy.path = root.child name := congrArg WorkingCopy.path h.copy_eq
  rw [hpath]
  exact (h.stands hw).copyBelow (h.get?_eq_none hw) (List.prefix_append F [name])
    h.ready.noEndSlash h.ready.free hvacant skip source

/-- The place for the copy is where its path leads. -/
theorem place_eq (h : InTemp host fs gs copy root F name)
    (hv : gs.lookup host.cwd (root.child name) false = .ok (.vacant W)) : W = F ++ [name] := by
  rcases h.ready.free with hfree | hlong
  · exact Found.vacant.inj (Except.ok.inj (hv.symm.trans hfree))
  · rw [lookup_of_long hlong] at hv
    cases hv

end InTemp

/-! ## Giving up and disposing -/

theorem abandon_of_temporary {e : CopyError} (hroot : copy.placement = .temporary root)
    (hgone : fs.removeTree host.cwd root = .ok gs) : host.abandon copy e fs = (.error e, gs) := by
  unfold abandon
  rw [hroot]
  dsimp only
  rw [Effect.bind_apply, Effect.ignoring, Effect.change, hgone]
  rfl

theorem abandon_of_chosen {e : CopyError} {d : Path} (hd : copy.placement = .chosen d) :
    host.abandon copy e fs = (.error e, fs) := by
  unfold abandon
  rw [hd]
  rfl

theorem abandon_fst {e : CopyError} : (host.abandon copy e fs).1 = .error e := by
  rcases host.abandon_cases copy e fs with h | ⟨-, gs, -, -, h⟩ <;> rw [h]

/-- A place that has been filled has all that was to be copied to it. -/
theorem fillWorkingCopy_eq_ok {copy' : WorkingCopy}
    (h : host.fillWorkingCopy skip source copy fs = (.ok copy', gs)) :
    copy' = copy ∧ copyBelow host.cwd skip source copy.path fs = (.ok (), gs) := by
  rcases host.fillWorkingCopy_cases skip source copy fs with ⟨hs, hcopy, hok⟩ | ⟨e, hs, -, hgive⟩
  · rw [hok] at h
    obtain ⟨hcopy', rfl⟩ := Prod.mk.inj h
    exact ⟨(Except.ok.inj hcopy').symm, hcopy⟩
  · have hfst := congrArg Prod.fst (hgive.symm.trans h)
    rw [abandon_fst] at hfst
    cases hfst

/-- A place that could not be filled has been given up. -/
theorem fillWorkingCopy_eq_error {e : CopyError}
    (h : host.fillWorkingCopy skip source copy fs = (.error e, gs)) :
    ∃ hs, copyBelow host.cwd skip source copy.path fs = (.error e, hs) ∧
      host.abandon copy e hs = (.error e, gs) := by
  rcases host.fillWorkingCopy_cases skip source copy fs with ⟨hs, -, hok⟩ | ⟨e', hs, hcopy, hgive⟩
  · rw [hok] at h
    cases h
  · have hfst := congrArg Prod.fst (hgive.symm.trans h)
    rw [abandon_fst] at hfst
    obtain rfl := Except.error.inj hfst
    exact ⟨hs, hcopy, hgive.symm.trans h⟩

theorem dispose_of_temporary (hroot : copy.placement = .temporary root) :
    host.dispose copy false fs = match fs.removeTree host.cwd root with
      | .ok gs => (.removed root, gs)
      | .error e => (.stuck root e, fs) := by
  unfold dispose
  rw [hroot]
  rfl

/-- What is to be kept is kept. -/
theorem dispose_of_kept {keepCopy : Bool} (h : keepCopy = true ∨ ∃ d, copy.placement = .chosen d) :
    (host.dispose copy keepCopy fs).2 = fs := by
  unfold dispose
  rcases h with rfl | ⟨d, hd⟩
  · cases copy.placement <;> rfl
  · rw [hd]

/-! ## Copies that were made -/

/-- A destination below which a place has been made is a directory. -/
theorem isDir_of_placeBelow {given : Path} (hw : fs.WellFormed) (hname : IsName name)
    (h : host.placeBelow given source name fs = (.ok copy, gs)) :
    ∃ d D m, copy.placement = .chosen d ∧
      gs.lookup host.cwd d true = .ok (.entry D (.dir m)) := by
  rcases placeBelow_cases hw hname.toPlainName host given source with ⟨e, he⟩ |
    ⟨R, fs₁, -, hR, -, hcleared, ⟨e, he⟩ | ⟨hnone, hok⟩⟩
  · rw [he] at h
    cases h
  · rw [he] at h
    cases h
  rw [hok] at h
  obtain ⟨hcopy, rfl⟩ := Prod.mk.inj h
  obtain rfl := Except.ok.inj hcopy
  refine ⟨Path.ofNames R, ?_⟩
  have hmade : fs₁.createDirs host.cwd (Path.ofNames R) =
      ((fs₁.createDirs host.cwd (Path.ofNames R)).1, none) := by rw [← hnone]
  obtain ⟨D, m, hD⟩ := exists_lookup_of_createDirs (hcleared.wellFormed hw) hR hmade
  exact ⟨D, m, rfl, hD⟩

/-- A copy that was made stands where its place was ready. -/
theorem stands_of_copyProject (hw : fs.WellFormed)
    (h : host.copyProject skip? request settings fs = (.ok copy, hs)) :
    ∃ skip gs W, host.prepareCopy skip? request settings fs = (.ok (skip, copy), gs) ∧
      gs.WellFormed ∧ gs.lookup host.cwd copy.path false = .ok (.vacant W) ∧ Stands gs hs W := by
  obtain ⟨name, skip, gs, -, hproject, hplace, hprepare, hcopy⟩ := copyProject_eq_ok h
  obtain ⟨W, hready⟩ := ready_of_placeWorkingCopy hw (isName_of_projectName hproject) hplace
  rcases hready.free with hv | hlong
  · have hstands := FileSystem.stands_copyBelow hready.wellFormed hready.noEndSlash hv skip
      request.source
    rw [hcopy] at hstands
    exact ⟨skip, gs, W, hprepare, hready.wellFormed, hv, hstands⟩
  · rw [copyBelow_of_long hready.noEndSlash hlong] at hcopy
    cases hcopy

/-- Where no place is made in a temporary directory, nothing happens. -/
theorem prepareCopy_eq_error {e : CopyError} (hdest : request.destination = none)
    (h : host.prepareCopy skip? request settings fs = (.error e, gs)) : gs = fs := by
  rcases host.prepareCopy_cases skip? request settings fs with ⟨e', he⟩ |
    ⟨name, skip, -, -, ⟨e', hs, hplace, he⟩ | ⟨copy, hs, -, hok⟩⟩
  · rw [he] at h
    exact (Prod.mk.inj h).2.symm
  · rw [he] at h
    obtain ⟨-, rfl⟩ := Prod.mk.inj h
    rcases placeWorkingCopy_temporary hdest host settings name fs with ⟨e, he⟩ | ⟨root, ks, -, hok⟩
    · rw [he] at hplace
      exact (Prod.mk.inj hplace).2.symm
    · rw [hok] at hplace
      cases hplace
  · rw [hok] at h
    cases h

/-- A destination below which a place has been made is a directory. -/
theorem isDir_of_prepareCopy {given : Path} (hw : fs.WellFormed)
    (hdest : request.destination = some given)
    (h : host.prepareCopy skip? request settings fs = (.ok (skip, copy), gs)) :
    ∃ d D m, copy.placement = .chosen d ∧
      gs.lookup host.cwd d true = .ok (.entry D (.dir m)) := by
  obtain ⟨name, hname, hplace⟩ := prepareCopy_eq_ok h
  unfold placeWorkingCopy at hplace
  rw [hdest] at hplace
  exact isDir_of_placeBelow hw hname hplace

/-- Filling a place keeps the ways that were there, however far it comes. -/
theorem keepsWays_of_prepareCopy (hw : fs.WellFormed)
    (h : host.prepareCopy skip? request settings fs = (.ok (skip, copy), gs)) (skip' : Exclusion)
    (source : Path) : KeepsWays gs (copyBelow host.cwd skip' source copy.path gs).2 := by
  obtain ⟨name, hname, hplace⟩ := prepareCopy_eq_ok h
  obtain ⟨W, hready⟩ := ready_of_placeWorkingCopy hw hname hplace
  rcases hready.free with hv | hlong
  · exact (FileSystem.stands_copyBelow hready.wellFormed hready.noEndSlash hv skip' source).ways
  · rw [copyBelow_of_long hready.noEndSlash hlong]
    exact KeepsWays.refl gs

end Host

end CodeIndex

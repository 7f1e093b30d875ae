import CodeIndex.Proofs.Job.Cleanup

/-!
# Copies that cannot be made

All that can be found out about a copy beforehand is found out before a directory is made or
removed: whether there is a project with a name, whether the patterns can be read, where the
destination is, and whether it is apart from the project. What fails later fails in a directory that
is new, and if that is a temporary one, it is removed as a whole.

* `CopyError.isEarly` : the failures that are found beforehand;
* `Host.isEarly_of_copyBelow`, `Host.placeBelow_eq_error` : where they come from, and where not;
* `Host.InTemp.same_removeTree` : without its temporary directory, a copy leaves nothing;
* `Job.abandonsFreely_of_drawsNames` : when a temporary directory can be removed;
* `Job.same_of_uncopied` : a run that fails so leaves what was there.
-/

namespace CodeIndex

open FileSystem

variable {host : Host} {fs gs hs ks : FileSystem} {cwd F : Place} {copy : WorkingCopy} {c : CopyError}
  {root source target given : Path} {skip : Exclusion} {name : String} {p : Job}

/-- The failures that are found before a directory is made or removed. -/
def CopyError.isEarly : CopyError → Bool
  | .noSource _ | .sourceIsFile _ | .unnamedProject _ | .badPattern _ | .unresolved _ _
  | .overlap _ _ | .noTempDir _ => true
  | .notRemoved _ _ | .noDirectory _ _ | .entryNotCopied _ _ _ | .unlisted _ => false

namespace FileSystem

/-! ## Where failures come from -/

theorem isEarly_of_copyEntry {kind : ListedKind}
    (h : copyEntry cwd source target kind fs = (.error c, gs)) : c.isEarly = false := by
  unfold copyEntry at h
  cases kind with
  | dir =>
    obtain ⟨e, rfl⟩ := Effect.attempt_eq_error h
    rfl
  | file =>
    obtain ⟨-, e, rfl⟩ := Effect.change_eq_error h
    rfl
  | link =>
    obtain ⟨-, e, rfl⟩ := Effect.change_eq_error h
    rfl

theorem isEarly_of_fillFrom {entries : List Listed}
    (h : fillFrom cwd source target entries fs = (.error c, gs)) : c.isEarly = false := by
  induction entries generalizing fs with
  | nil => cases h
  | cons e es ih =>
    unfold fillFrom at h
    rcases Effect.bind_eq_error.mp h with h | ⟨_, hs, -, h⟩
    · exact isEarly_of_copyEntry h
    · exact ih h

/-- What fails while a place is filled could not have been found beforehand. -/
theorem isEarly_of_copyBelow (h : copyBelow cwd skip source target fs = (.error c, gs)) :
    c.isEarly = false := by
  unfold copyBelow at h
  rcases Effect.bind_eq_error.mp h with h | ⟨_, hs, -, h⟩
  · obtain ⟨e, rfl⟩ := Effect.attempt_eq_error h
    rfl
  rcases Effect.bind_eq_error.mp h with h | ⟨entries, ks, -, h⟩
  · have hlisting : (hs.listing cwd skip source).mapError CopyError.unlisted = .error c :=
      (Prod.mk.inj h).1
    cases hlist : hs.listing cwd skip source with
    | ok entries =>
      rw [hlist] at hlisting
      cases hlisting
    | error e =>
      rw [hlist] at hlisting
      obtain rfl := Except.error.inj hlisting
      rfl
  · exact isEarly_of_fillFrom h

end FileSystem

namespace Host

/-- What is found beforehand about a destination is found before anything is removed. -/
theorem placeBelow_eq_error (h : host.placeBelow given source name fs = (.error c, gs))
    (hearly : c.isEarly = true) : gs = fs := by
  unfold placeBelow at h
  rcases Effect.bind_eq_error.mp h with h | ⟨destination, hs, hsettled, h⟩
  · exact (Prod.mk.inj h).2.symm
  obtain rfl : fs = hs := (Prod.mk.inj hsettled).2
  dsimp only at h
  split at h
  · exact (Prod.mk.inj h).2.symm
  rcases Effect.bind_eq_error.mp h with h | ⟨_, hs, -, h⟩
  · unfold clear at h
    split at h
    · exact (Effect.change_eq_error h).1
    · cases h
  rcases Effect.bind_eq_error.mp h with h | ⟨_, ks, -, h⟩
  · -- A directory that cannot be made is not found beforehand.
    obtain ⟨e, rfl⟩ := Effect.attempt_eq_error h
    cases hearly
  · cases h

/-- What is found beforehand leaves what was there, wherever the copy is to be. -/
theorem prepareCopy_same {skip? : Except CopyError Exclusion} {request : Request}
    {settings : Settings} (h : host.prepareCopy skip? request settings fs = (.error c, gs))
    (hearly : c.isEarly = true ∨ request.destination = none) : gs = fs := by
  cases hdest : request.destination with
  | none => exact prepareCopy_eq_error hdest h
  | some given =>
    have hc : c.isEarly = true := by
      rcases hearly with hc | hnone
      · exact hc
      · rw [hdest] at hnone
        cases hnone
    rcases host.prepareCopy_cases skip? request settings fs with ⟨e, he⟩ |
      ⟨name, skip, -, -, ⟨e, hs, hplace, he⟩ | ⟨copy, hs, -, hok⟩⟩
    · rw [he] at h
      exact (Prod.mk.inj h).2.symm
    · rw [he] at h
      obtain ⟨herr, rfl⟩ := Prod.mk.inj h
      obtain rfl := Except.error.inj herr
      unfold placeWorkingCopy at hplace
      rw [hdest] at hplace
      exact placeBelow_eq_error hplace hc
    · rw [hok] at h
      cases h

/-! ## Temporary directories -/

/-- However much of a project has been copied to a temporary directory, without the directory all is
as it was. -/
theorem InTemp.same_removeTree (h : InTemp host fs gs copy root F name) (hw : fs.WellFormed)
    (hcopied : (copyBelow host.cwd skip source copy.path gs).2 = hs)
    (hgone : hs.removeTree host.cwd root = .ok ks) : Same fs ks := by
  obtain ⟨d, n, hF, -, -, -⟩ := vacant_of_lookup h.vacant
  have hpath : copy.path = root.child name := congrArg WorkingCopy.path h.copy_eq
  have hstands := h.stands_copyBelow hw skip source
  obtain ⟨-, hbelow⟩ := copyBelow_frame h.ready.wellFormed h.ready.noEndSlash h.ready.free skip source
  rw [← hpath] at hbelow
  rw [hcopied] at hstands hbelow
  obtain rfl := hstands.ways.removeTree hstands.isDirAt h.vacant hgone
  intro q
  by_cases hq : q = []
  · rw [hq]
    rfl
  rw [get?_eraseTree hq]
  split
  · next hFq => exact h.get?_eq_none hw q hFq
  · next hFq =>
    have hsame : hs.get? q = gs.get? q := by
      by_contra hne
      exact hFq ((List.prefix_append F [name]).trans (hbelow q hne))
    rw [hsame, h.files, get?_put (by simp [hF]), if_neg]
    rintro rfl
    exact hFq (List.prefix_refl _)

/-! ## Removing what was made -/

/-- The names drawn for temporary directories do not end in a slash. -/
def DrawsNames (host : Host) : Prop :=
  ∀ draw, ∃ c, c ≠ '/' ∧ (host.tempNames draw).toList.getLast? = some c

/-- The path of a temporary directory ends as the name that was drawn for it. -/
theorem withoutEndSlashes_tempPath (hnames : host.DrawsNames) (start : String) (draw : Nat) :
    withoutEndSlashes (host.tempPath start draw) = host.tempPath start draw := by
  obtain ⟨c, hc, hlast⟩ := hnames draw
  have hend : ∀ t : String, (t ++ (start ++ host.tempNames draw)).toList.getLast? = some c := by
    intro t
    simp [List.getLast?_append, hlast]
  apply withoutEndSlashes_eq
  have htext : (host.tempPath start draw).text.toList.getLast? = some c := by
    unfold tempPath Path.child
    generalize (FileSystem.pathOf host.cwd).join host.tempDir = dir
    unfold Path.join
    split
    · simpa using hend ""
    split
    · simpa using hend ""
    split
    · exact hend dir.text
    · exact hend (dir.text ++ "/")
  rw [htext]
  intro heq
  exact hc (Option.some.inj heq)

/-- The temporary directory of a copy has a name that was drawn for it. -/
theorem exists_draw_of_placeWorkingCopy {request : Request} {settings : Settings}
    (hdest : request.destination = none) (hroot : copy.placement = .temporary root)
    (h : host.placeWorkingCopy request settings name fs = (.ok copy, gs)) :
    ∃ drawn, root = host.tempPath settings.tempPrefix drawn := by
  unfold placeWorkingCopy at h
  rw [hdest] at h
  dsimp only at h
  rw [Effect.bind_apply] at h
  rcases hmade : host.makeTempDir settings.tempPrefix maxDraws 0 fs with ⟨e | made, hs⟩
  · rw [hmade] at h
    cases h
  · rw [hmade] at h
    obtain rfl := Except.ok.inj (Prod.mk.inj h).1
    obtain rfl := Placement.temporary.inj hroot
    exact exists_draw_of_makeTempDir hmade

end Host

namespace Job

/-- The temporary directory of a copy that fails can be removed, if its name was drawn as it should
be. -/
theorem abandonsFreely_of_drawsNames (hw : fs.WellFormed) (hnames : host.DrawsNames) :
    p.AbandonsFreely host fs := by
  intro skip copy gs root e hs hplace hroot hcopy
  obtain ⟨name, hname, hmade⟩ := Host.prepareCopy_eq_ok hplace
  cases hdest : p.request.destination with
  | none =>
    obtain ⟨drawn, rfl⟩ := Host.exists_draw_of_placeWorkingCopy hdest hroot hmade
    obtain ⟨root, F, htemp⟩ := Host.inTemp_of_placeWorkingCopy hw hname hdest hmade
    obtain rfl : root = _ := by
      have hplace : copy.placement = .temporary root :=
        congrArg WorkingCopy.placement htemp.copy_eq
      exact Placement.temporary.inj (hplace.symm.trans hroot)
    have hstands := htemp.stands_copyBelow hw skip p.request.source
    rw [hcopy] at hstands
    refine hstands.exists_removeTree ?_
    rw [← Host.withoutEndSlashes_tempPath hnames]
    exact htemp.vacant
  | some given =>
    unfold Host.placeWorkingCopy at hmade
    rw [hdest] at hmade
    obtain ⟨d, hd⟩ := Host.placement_of_placeBelow hw hname.toPlainName hmade
    rw [hd] at hroot
    cases hroot

/-- A run that could not copy its project leaves what was there, if the failure was found beforehand
or there is no destination. -/
theorem same_of_uncopied (hw : fs.WellFormed) (hfree : p.AbandonsFreely host fs)
    (hout : (p.run host fs).outcome = .error (.copying c))
    (hearly : c.isEarly = true ∨ p.request.destination = none) :
    Same fs (p.run host fs).files := by
  rcases p.run_cases host fs with ⟨c', hmade, hout'⟩ | ⟨copy, gs, result, hs, -, hwork, -, -, hreports⟩
  · rw [hout'] at hout
    obtain rfl := StageError.copying.inj (Except.error.inj hout)
    rcases hplace : p.placeCopy host fs with ⟨e | ⟨skip, copy⟩, gs⟩
    · rw [makeWorkingCopy_of_unplaced hplace] at hmade
      obtain ⟨he, hfiles⟩ := Prod.mk.inj hmade
      obtain rfl := Except.error.inj he
      rw [← hfiles, Host.prepareCopy_same hplace hearly]
      exact Same.refl fs
    · have hfill := hmade
      rw [makeWorkingCopy_of_placed hplace] at hfill
      obtain ⟨hs, hcopy, hgive⟩ := Host.fillWorkingCopy_eq_error hfill
      have hdest : p.request.destination = none := by
        rcases hearly with hc | hnone
        · rw [isEarly_of_copyBelow hcopy] at hc
          cases hc
        · exact hnone
      obtain ⟨name, hname, hmade⟩ := Host.prepareCopy_eq_ok hplace
      obtain ⟨root, F, htemp⟩ := Host.inTemp_of_placeWorkingCopy hw hname hdest hmade
      have hroot : copy.placement = .temporary root := congrArg WorkingCopy.placement htemp.copy_eq
      obtain ⟨ks, hgone⟩ := hfree skip copy gs root c' hs hplace hroot hcopy
      rw [Host.abandon_of_temporary hroot hgone] at hgive
      rw [← (Prod.mk.inj hgive).2]
      exact htemp.same_removeTree hw (congrArg Prod.snd hcopy) hgone
  · exact absurd hout (outcome_ne_copying hwork hreports c)

end Job

end CodeIndex

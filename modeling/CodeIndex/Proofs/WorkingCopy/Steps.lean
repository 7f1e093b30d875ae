import CodeIndex.Proofs.WorkingCopy.Fill
import CodeIndex.Proofs.WorkingCopy.Place

/-!
# The steps of a copy

* `Host.projectName_eq_ok` : the name of a project is that of its directory;
* `Host.prepareCopy_cases`, `Host.copyProject_cases` : a copy ends before anything happens, while its
  place is made, or while it is filled;
* `Host.fillWorkingCopy_cases`, `Host.abandon_cases` : filling a place, and giving up.
-/

namespace CodeIndex.Host

open FileSystem

variable {host : Host} {fs gs hs : FileSystem} {request : Request} {settings : Settings}
  {skip : Exclusion} {copy : WorkingCopy} {S : Place} {name : String} {source : Path}

/-- The name of a project is that of its directory. -/
theorem projectName_eq_ok (hw : fs.WellFormed) (hS : fs.isDirAt S = true)
    (h : host.projectName fs (Path.ofNames S) = .ok name) :
    IsName name ∧ ∃ T, S = T ++ [name] := by
  have hfile : (Path.ofNames S).fileName? = some name := by
    unfold projectName at h
    split at h
    · cases h
    · split at h
      · cases h
      · split at h
        · next n hn => rw [hn, Except.ok.inj h]
        · cases h
  obtain ⟨m, hm⟩ := isDirAt_iff.mp hS
  rcases List.eq_nil_or_concat S with rfl | ⟨T, k, rfl⟩
  · rw [show (Path.ofNames []).fileName? = none by decide] at hfile
    cases hfile
  · rw [List.concat_eq_append] at hm hfile
    have hplain := hw.plainPlace hm
    rw [plainPlace_append, plainPlace_cons] at hplain
    rw [Path.fileName?_ofNames hplain.1 hplain.2.1] at hfile
    obtain rfl := Option.some.inj hfile
    exact ⟨hw.isName hm k (by simp), T, List.concat_eq_append⟩

/-- A place is made for the copy of a project that has a name. -/
theorem prepareCopy_cases (host : Host) (skip? : Except CopyError Exclusion) (request : Request)
    (settings : Settings) (fs : FileSystem) :
    (∃ e, host.prepareCopy skip? request settings fs = (.error e, fs)) ∨
    ∃ name skip, host.projectName fs request.source = .ok name ∧ skip? = .ok skip ∧
      ((∃ e hs, host.placeWorkingCopy request settings name fs = (.error e, hs) ∧
          host.prepareCopy skip? request settings fs = (.error e, hs)) ∨
        ∃ copy hs, host.placeWorkingCopy request settings name fs = (.ok copy, hs) ∧
          host.prepareCopy skip? request settings fs = (.ok (skip, copy), hs)) := by
  unfold prepareCopy
  rw [Effect.bind_apply, Effect.examine]
  cases hname : host.projectName fs request.source with
  | error e => exact Or.inl ⟨e, rfl⟩
  | ok name =>
    dsimp only
    rw [Effect.bind_apply, Effect.examine]
    cases skip? with
    | error e => exact Or.inl ⟨e, rfl⟩
    | ok skip =>
      refine Or.inr ⟨name, skip, rfl, rfl, ?_⟩
      dsimp only
      rw [Effect.bind_apply]
      rcases hplace : host.placeWorkingCopy request settings name fs with ⟨r, hs⟩
      cases r with
      | error e => exact Or.inl ⟨e, hs, rfl, rfl⟩
      | ok copy => exact Or.inr ⟨copy, hs, rfl, rfl⟩

/-- A copy ends before anything happens, while its place is made, or while it is filled. -/
theorem copyProject_cases (host : Host) (skip? : Except CopyError Exclusion) (request : Request)
    (settings : Settings) (fs : FileSystem) :
    (∃ e, host.copyProject skip? request settings fs = (.error e, fs)) ∨
    ∃ name skip, host.projectName fs request.source = .ok name ∧ skip? = .ok skip ∧
      ((∃ e hs, host.placeWorkingCopy request settings name fs = (.error e, hs) ∧
          host.copyProject skip? request settings fs = (.error e, hs)) ∨
        ∃ copy hs, host.placeWorkingCopy request settings name fs = (.ok copy, hs) ∧
          host.copyProject skip? request settings fs =
            host.fillWorkingCopy skip request.source copy hs) := by
  unfold copyProject
  rcases host.prepareCopy_cases skip? request settings fs with ⟨e, he⟩ |
    ⟨name, skip, hname, hskip, ⟨e, hs, hplace, he⟩ | ⟨copy, hs, hplace, hok⟩⟩
  · exact Or.inl ⟨e, Effect.bind_of_error _ he⟩
  · exact Or.inr ⟨name, skip, hname, hskip, Or.inl ⟨e, hs, hplace, Effect.bind_of_error _ he⟩⟩
  · refine Or.inr ⟨name, skip, hname, hskip, Or.inr ⟨copy, hs, hplace, ?_⟩⟩
    rw [Effect.bind_apply, hok]

/-- Filling a place succeeds if everything is copied, and is given up otherwise. -/
theorem fillWorkingCopy_cases (host : Host) (skip : Exclusion) (source : Path)
    (copy : WorkingCopy) (fs : FileSystem) :
    (∃ gs, copyBelow host.cwd skip source copy.path fs = (.ok (), gs) ∧
      host.fillWorkingCopy skip source copy fs = (.ok copy, gs)) ∨
    ∃ e gs, copyBelow host.cwd skip source copy.path fs = (.error e, gs) ∧
      host.fillWorkingCopy skip source copy fs = host.abandon copy e gs := by
  unfold fillWorkingCopy
  rw [Effect.bind_apply, Effect.outcome]
  rcases hcopy : copyBelow host.cwd skip source copy.path fs with ⟨r, gs⟩
  cases r with
  | ok u => exact Or.inl ⟨gs, rfl, rfl⟩
  | error e => exact Or.inr ⟨e, gs, rfl, rfl⟩

/-- Giving up removes a temporary directory if it can, and nothing of a chosen destination. -/
theorem abandon_cases (host : Host) (copy : WorkingCopy) (e : CopyError) (fs : FileSystem) :
    host.abandon copy e fs = (.error e, fs) ∨
      ∃ root gs, copy.placement = .temporary root ∧ fs.removeTree host.cwd root = .ok gs ∧
        host.abandon copy e fs = (.error e, gs) := by
  unfold abandon
  cases hplace : copy.placement with
  | chosen d => exact Or.inl rfl
  | temporary root =>
    dsimp only
    rw [Effect.bind_apply, Effect.ignoring, Effect.change]
    cases hgone : fs.removeTree host.cwd root with
    | error err => exact Or.inl rfl
    | ok gs => exact Or.inr ⟨root, gs, rfl, hgone, rfl⟩

/-- A copy that succeeds has filled a place that was made for it. -/
theorem copyProject_eq_ok {skip? : Except CopyError Exclusion}
    (h : host.copyProject skip? request settings fs = (.ok copy, gs)) :
    ∃ name skip hs, skip? = .ok skip ∧ host.projectName fs request.source = .ok name ∧
      host.placeWorkingCopy request settings name fs = (.ok copy, hs) ∧
      host.prepareCopy skip? request settings fs = (.ok (skip, copy), hs) ∧
      copyBelow host.cwd skip request.source copy.path hs = (.ok (), gs) := by
  unfold copyProject at h
  rw [Effect.bind_apply] at h
  rcases host.prepareCopy_cases skip? request settings fs with ⟨e, he⟩ |
    ⟨name, skip, hname, hskip, ⟨e, hs, -, he⟩ | ⟨copy', hs, hplace, hprepare⟩⟩
  · rw [he] at h
    cases h
  · rw [he] at h
    cases h
  · rw [hprepare] at h
    dsimp only at h
    rcases host.fillWorkingCopy_cases skip request.source copy' hs with ⟨gs', hcopy, hok⟩ |
      ⟨e, gs', -, hgive⟩
    · rw [hok] at h
      obtain ⟨hcopy', rfl⟩ := Prod.mk.inj h
      obtain rfl := Except.ok.inj hcopy'
      exact ⟨name, skip, hs, hskip, hname, hplace, hprepare, hcopy⟩
    · rw [hgive] at h
      rcases host.abandon_cases copy' e gs' with he | ⟨root, gs'', -, -, he⟩
      · rw [he] at h
        cases h
      · rw [he] at h
        cases h

/-- Without a destination, nothing happens or a temporary directory is made. -/
theorem placeWorkingCopy_temporary (hdest : request.destination = none) (host : Host)
    (settings : Settings) (name : String) (fs : FileSystem) :
    (∃ e, host.placeWorkingCopy request settings name fs = (.error e, fs)) ∨
    ∃ root gs, fs.createDir host.cwd root 0o700 = .ok gs ∧
      host.placeWorkingCopy request settings name fs =
        (.ok ⟨root.child name, .temporary root⟩, gs) := by
  unfold placeWorkingCopy
  rw [hdest]
  dsimp only
  rw [Effect.bind_apply]
  rcases hroot : host.makeTempDir settings.tempPrefix maxDraws 0 fs with ⟨e | root, gs⟩
  · obtain rfl := makeTempDir_eq_error hroot
    exact Or.inl ⟨e, rfl⟩
  · exact Or.inr ⟨root, gs, makeTempDir_eq_ok hroot, rfl⟩

/-- A place that has been made is ready for a copy. -/
theorem ready_of_placeWorkingCopy (hw : fs.WellFormed) (hname : IsName name)
    (h : host.placeWorkingCopy request settings name fs = (.ok copy, gs)) :
    ∃ W, Ready fs gs host.cwd copy.path W := by
  cases hdest : request.destination with
  | none =>
    rcases placeWorkingCopy_temporary hdest host settings name fs with ⟨e, he⟩ | ⟨root, gs', hmade, hok⟩
    · rw [he] at h
      cases h
    · rw [hok] at h
      obtain ⟨hcopy, rfl⟩ := Prod.mk.inj h
      obtain rfl := Except.ok.inj hcopy
      obtain ⟨F, hready, -⟩ := ready_of_createDir hw hname hmade
      exact ⟨_, hready⟩
  | some given =>
    unfold placeWorkingCopy at h
    rw [hdest] at h
    exact ready_of_placeBelow hw hname h

end CodeIndex.Host

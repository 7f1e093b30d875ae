import CodeIndex.Proofs.Job.Passage

/-!
# How runs end

A run that has its copy works on it until the export is done or something fails, and disposes of the
copy in either case.

* `Job.workOn` : what is done to a copy before it is disposed of;
* `Job.account` : the account of work that succeeded;
* `Job.run_cases` : a run ends without a copy, or it works on its copy and disposes of it;
* `Job.run_eq_ok`, `Job.run_eq_unexported` : a run that succeeds, and one whose export fails.
-/

namespace CodeIndex.Job

open Running

variable {host : Host} {p : Job} {copy : WorkingCopy} {fs gs hs : FileSystem} {found : FoundIndex}
  {exported : Exported}

/-- What is done to a copy before it is disposed of. -/
def workOn (host : Host) (p : Job) (copy : WorkingCopy) :
    Effect StageError (FoundIndex × Exported) := do
  let found ← (host.makeIndex copy p.indexerCall).mapError .analyzing
  let exported ←
    (host.exportJson found.index p.request.jsonOutput p.exporterCall).mapError .converting
  pure (found, exported)

theorem workOn_of_unindexed {c : IndexingError}
    (h : host.makeIndex copy p.indexerCall fs = (.error c, gs)) :
    p.workOn host copy fs = (.error (.analyzing c), gs) :=
  Effect.bind_of_error _ (by rw [Effect.mapError, h])

theorem workOn_of_indexed (h : host.makeIndex copy p.indexerCall fs = (.ok found, gs)) :
    p.workOn host copy fs =
      match host.exportJson found.index p.request.jsonOutput p.exporterCall gs with
      | (.error c, hs) => (.error (.converting c), hs)
      | (.ok exported, hs) => (.ok (found, exported), hs) := by
  unfold workOn
  rw [Effect.bind_apply, Effect.mapError, h]
  dsimp only
  rw [Effect.bind_apply, Effect.mapError]
  rcases host.exportJson found.index p.request.jsonOutput p.exporterCall gs with ⟨_ | _, _⟩ <;> rfl

theorem workOn_snd_of_indexed (h : host.makeIndex copy p.indexerCall fs = (.ok found, gs)) :
    (p.workOn host copy fs).2 =
      (host.exportJson found.index p.request.jsonOutput p.exporterCall gs).2 := by
  rw [workOn_of_indexed h]
  rcases host.exportJson found.index p.request.jsonOutput p.exporterCall gs with ⟨_ | _, _⟩ <;> rfl

/-- The account of work on a copy that succeeded, with what became of the copy afterwards. -/
def account (p : Job) (copy : WorkingCopy) (disposal : Disposal) (found : FoundIndex)
    (exported : Exported) (warnings : List String) : Account where
  project := p.request.source
  kind := p.request.analyzer
  analyzer := p.tools.analyzer.name
  copy := copy.path
  copyKept := disposal.isKept
  index := found.index
  indexSearched := found.sighting = .searched
  jsonOutput := exported.output
  size := exported.bytes
  outputKept := disposal.isKept || !exported.output.startsWith copy.path
  warnings := warnings

/-- What a run says after its work on the copy and the disposal of it. -/
def Reports (p : Job) (copy : WorkingCopy) (disposal : Disposal)
    (outcome : Except StageError Account) : Except StageError (FoundIndex × Exported) → Prop
  | .error e => outcome = .error e
  | .ok (found, exported) =>
    ∃ warnings, outcome = .ok (p.account copy disposal found exported warnings)

/-- A run ends without a copy, or it works on its copy, disposes of it and says so at last. -/
theorem run_cases (host : Host) (p : Job) (fs : FileSystem) :
    (∃ c, host.makeWorkingCopy p.request p.settings fs = (.error c, (p.run host fs).files) ∧
      (p.run host fs).outcome = .error (.copying c)) ∨
    ∃ copy gs result hs, host.makeWorkingCopy p.request p.settings fs = (.ok copy, gs) ∧
      p.workOn host copy gs = (result, hs) ∧
      (p.run host fs).files = (host.dispose copy p.request.keepCopy hs).2 ∧
      (∃ before, (p.run host fs).events =
        before ++ [(host.dispose copy p.request.keepCopy hs).1.event]) ∧
      p.Reports copy (host.dispose copy p.request.keepCopy hs).1 (p.run host fs).outcome
        result := by
  have hfiles : (p.run host fs).files = (p.stages host ⟨fs, p.state, p.warnings, []⟩).2.files := rfl
  have hevents : (p.run host fs).events = (p.stages host ⟨fs, p.state, p.warnings, []⟩).2.events :=
    rfl
  have houtcome : (p.run host fs).outcome = (p.stages host ⟨fs, p.state, p.warnings, []⟩).1 := rfl
  rw [hfiles, hevents, houtcome]
  generalize hs : Progress.mk fs p.state p.warnings [] = s
  have hstart : fs = s.files := by rw [← hs]
  unfold stages
  rw [Effect.bind_apply, hstart]
  rcases copying_cases host p s with ⟨copy, s₁, hcopying, hcopy⟩ | ⟨c, s₁, hcopying, hcopy⟩
  · refine Or.inr ⟨copy, s₁.files, ?_⟩
    rw [hcopying]
    dsimp only
    rw [Effect.bind_apply]
    rcases analyzing_cases host p copy s₁ with ⟨found, s₂, hanalyzing, hindex⟩ |
      ⟨c, gs, s₂, hanalyzing, hindex, hdisposed⟩
    · rw [hanalyzing, workOn_of_indexed hindex]
      dsimp only
      rw [Effect.bind_apply]
      rcases converting_cases host p copy found s₂ with ⟨exported, s₃, hconverting, hexport⟩ |
        ⟨c, gs, s₃, hconverting, hexport, hdisposed⟩
      · rw [hconverting, hexport]
        simp only [Effect.bind_apply, modify_apply]
        obtain ⟨s₄, hdispose, hdisposed⟩ :=
          disposeCopy_apply host p copy { s₃ with state := .done }
        rw [hdispose]
        exact ⟨_, s₃.files, hcopy, rfl, hdisposed.files, hdisposed.told, s₄.warnings, rfl⟩
      · rw [hconverting, hexport]
        exact ⟨_, gs, hcopy, rfl, hdisposed.files, hdisposed.told, rfl⟩
    · rw [hanalyzing, workOn_of_unindexed hindex]
      exact ⟨_, gs, hcopy, rfl, hdisposed.files, hdisposed.told, rfl⟩
  · rw [hcopying, hcopy]
    exact Or.inl ⟨c, rfl, rfl⟩

/-- A run with an account has worked on its copy and disposed of it. -/
theorem run_eq_ok {a : Account} (h : (p.run host fs).outcome = .ok a) :
    ∃ copy gs found exported hs warnings,
      host.makeWorkingCopy p.request p.settings fs = (.ok copy, gs) ∧
      p.workOn host copy gs = (.ok (found, exported), hs) ∧
      (p.run host fs).files = (host.dispose copy p.request.keepCopy hs).2 ∧
      a = p.account copy (host.dispose copy p.request.keepCopy hs).1 found exported warnings := by
  rcases p.run_cases host fs with ⟨c, -, hout⟩ |
    ⟨copy, gs, result, hs, hmade, hwork, hfiles, -, hreports⟩
  · rw [hout] at h
    cases h
  · cases result with
    | error e =>
      have hout : (p.run host fs).outcome = .error e := hreports
      rw [hout] at h
      cases h
    | ok r =>
      obtain ⟨warnings, hout⟩ := hreports
      rw [hout] at h
      exact ⟨copy, gs, r.1, r.2, hs, warnings, hmade, hwork, hfiles, (Except.ok.inj h).symm⟩

/-- Work that succeeded has found an index and exported it. -/
theorem workOn_eq_ok (h : p.workOn host copy fs = (.ok (found, exported), hs)) :
    ∃ gs, host.makeIndex copy p.indexerCall fs = (.ok found, gs) ∧
      host.exportJson found.index p.request.jsonOutput p.exporterCall gs = (.ok exported, hs) := by
  rcases hindex : host.makeIndex copy p.indexerCall fs with ⟨c | found', gs⟩
  · rw [workOn_of_unindexed hindex] at h
    cases h
  · rw [workOn_of_indexed hindex] at h
    split at h
    · cases h
    · next exported' hs' hexport =>
      obtain ⟨hresult, rfl⟩ := Prod.mk.inj h
      obtain ⟨rfl, rfl⟩ := Prod.mk.inj (Except.ok.inj hresult)
      exact ⟨gs, rfl, hexport⟩

/-- Work whose export failed has found an index before. -/
theorem workOn_eq_unexported {c : ExportError}
    (h : p.workOn host copy fs = (.error (.converting c), hs)) :
    ∃ found gs, host.makeIndex copy p.indexerCall fs = (.ok found, gs) ∧
      host.exportJson found.index p.request.jsonOutput p.exporterCall gs = (.error c, hs) := by
  rcases hindex : host.makeIndex copy p.indexerCall fs with ⟨e | found, gs⟩
  · rw [workOn_of_unindexed hindex] at h
    cases h
  · rw [workOn_of_indexed hindex] at h
    split at h
    · next c' hs' hexport =>
      obtain ⟨herr, rfl⟩ := Prod.mk.inj h
      obtain rfl := StageError.converting.inj (Except.error.inj herr)
      exact ⟨found, gs, rfl, hexport⟩
    · cases h

/-- A run whose export failed has disposed of its copy afterwards. -/
theorem run_eq_unexported {c : ExportError}
    (h : (p.run host fs).outcome = .error (.converting c)) :
    ∃ copy gs found hs ks, host.makeWorkingCopy p.request p.settings fs = (.ok copy, gs) ∧
      host.makeIndex copy p.indexerCall gs = (.ok found, hs) ∧
      host.exportJson found.index p.request.jsonOutput p.exporterCall hs = (.error c, ks) ∧
      (p.run host fs).files = (host.dispose copy p.request.keepCopy ks).2 := by
  rcases p.run_cases host fs with ⟨e, -, hout⟩ |
    ⟨copy, gs, result, ks, hmade, hwork, hfiles, -, hreports⟩
  · rw [hout] at h
    cases h
  · cases result with
    | ok r =>
      obtain ⟨warnings, hout⟩ := hreports
      rw [hout] at h
      cases h
    | error e =>
      have hout : (p.run host fs).outcome = .error e := hreports
      rw [hout] at h
      obtain rfl := Except.error.inj h
      obtain ⟨found, hs, hindex, hexport⟩ := workOn_eq_unexported hwork
      exact ⟨copy, gs, found, hs, ks, hmade, hindex, hexport, hfiles⟩

end CodeIndex.Job

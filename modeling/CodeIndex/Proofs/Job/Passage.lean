import CodeIndex.Job.Run
import CodeIndex.Proofs.Effect

/-!
# The file systems of a run

A run changes the file system step by step: the place of the copy is made and filled, the analyzer
runs, the output is opened, the exporter runs, an empty output is removed, and the copy is disposed
of. `Job.passage` lists what is there after each of these, as far as the run comes.

* `Host.exportPassage`, `Job.passageOn`, `Job.passage` : the file systems of an export, of a run that
  has its copy, and of a run;
* `Job.DisposedOf` : what is left and told when the copy has been disposed of;
* `Job.getLast?_passage` : the last one is what the run leaves.
-/

namespace CodeIndex

variable {α : Type} {s : Progress} {fs : FileSystem}

/-- The file systems after the steps of an export. -/
def Host.exportPassage (host : Host) (index : Path) (output : Option Path) (call : ExporterCall)
    (fs : FileSystem) : List FileSystem :=
  match host.prepareExport index output call fs with
  | (.error _, gs) => [gs]
  | (.ok (_, sink, command), gs) =>
    [gs, (host.run call.tool.name command (some sink) call.timeout gs).2,
      (host.exportJson index output call fs).2]

namespace Disposal

/-- What the observer is told of a disposal. -/
def event : Disposal → Event
  | .removed root => .info ("Cleaned up temporary workspace " ++ root.text)
  | .kept path notice => .info (Job.keptMessage path notice)
  | .stuck root e =>
    .warning ("could not remove temporary workspace " ++ root.text ++ ": " ++ e.message)

/-- Whether the copy is said to be there still. -/
def isKept : Disposal → Bool
  | .removed _ => false
  | _ => true

end Disposal

namespace Job

/-- The file systems after the steps of a run that has its copy. -/
def passageOn (host : Host) (p : Job) (copy : WorkingCopy) (fs : FileSystem) : List FileSystem :=
  match host.makeIndex copy p.indexerCall fs with
  | (.error _, gs) => [gs, (host.dispose copy p.request.keepCopy gs).2]
  | (.ok found, gs) =>
    let hs := (host.exportJson found.index p.request.jsonOutput p.exporterCall gs).2
    gs :: (host.exportPassage found.index p.request.jsonOutput p.exporterCall gs ++
      [(host.dispose copy p.request.keepCopy hs).2])

/-- The file systems after the steps of a run. -/
def passage (host : Host) (p : Job) (fs : FileSystem) : List FileSystem :=
  (host.prepareCopy (Host.exclusion p.settings.copyExclude) p.request p.settings fs).2 ::
    match host.makeWorkingCopy p.request p.settings fs with
    | (.error _, gs) => [gs]
    | (.ok copy, gs) => gs :: p.passageOn host copy gs

/-! ## What a run leaves -/

open Running

@[simp] theorem tell_apply (e : Event) (s : Progress) :
    tell e s = (.ok (), { s with events := s.events ++ [e] }) := rfl

@[simp] theorem enter_apply (stage : Stage) (s : Progress) : enter stage s =
    (.ok (), { s with state := .running stage, events := s.events ++ [.started stage] }) := rfl

@[simp] theorem fail_apply (e : StageError) (s : Progress) : fail e s =
    (.ok (), { s with state := .failed e.stage, events := s.events ++ [.failed e.stage e.message] }) :=
  rfl

theorem modify_apply (f : Progress → Progress) (s : Progress) :
    (modify f : Running Unit) s = (.ok (), f s) := rfl

theorem perform_apply {ε : Type} (act : Effect ε α) (s : Progress) :
    perform act s = (.ok (act s.files).1, { s with files := (act s.files).2 }) := rfl

theorem performSafely_apply (act : StateM FileSystem α) (s : Progress) :
    performSafely act s = (.ok (act s.files).1, { s with files := (act s.files).2 }) := rfl

/-- The copying stage does to the file system what copying does. -/
theorem copying_cases (host : Host) (p : Job) (s : Progress) :
    (∃ copy s', p.copying host s = (.ok copy, s') ∧
      host.makeWorkingCopy p.request p.settings s.files = (.ok copy, s'.files)) ∨
    ∃ c s', p.copying host s = (.error (.copying c), s') ∧
      host.makeWorkingCopy p.request p.settings s.files = (.error c, s'.files) := by
  unfold copying
  simp only [Effect.bind_apply, enter_apply, tell_apply, perform_apply]
  rcases h : host.makeWorkingCopy p.request p.settings s.files with ⟨c | copy, gs⟩
  · exact Or.inr ⟨c, _, rfl, rfl⟩
  · exact Or.inl ⟨copy, _, rfl, rfl⟩

/-- The copy has been disposed of, and the observer has been told so at last. -/
structure DisposedOf (host : Host) (p : Job) (copy : WorkingCopy) (fs : FileSystem)
    (s : Progress) : Prop where
  files : s.files = (host.dispose copy p.request.keepCopy fs).2
  told : ∃ before, s.events = before ++ [(host.dispose copy p.request.keepCopy fs).1.event]

/-- Cleaning up disposes of the copy. -/
theorem disposeCopy_apply (host : Host) (p : Job) (copy : WorkingCopy) (s : Progress) :
    ∃ s', p.disposeCopy host copy s =
        (.ok (host.dispose copy p.request.keepCopy s.files).1.isKept, s') ∧
      p.DisposedOf host copy s.files s' := by
  unfold disposeCopy
  simp only [Effect.bind_apply, performSafely_apply]
  rcases hd : host.dispose copy p.request.keepCopy s.files with ⟨disposal, gs⟩
  have htold : ∀ s' : Progress, s'.files = gs → s'.events = s.events ++ [disposal.event] →
      p.DisposedOf host copy s.files s' := by
    intro s' hfiles hevents
    refine ⟨?_, s.events, ?_⟩
    · rw [hfiles, hd]
    · rw [hevents, hd]
  cases disposal with
  | removed root => exact ⟨_, rfl, htold _ rfl rfl⟩
  | kept path notice => exact ⟨_, rfl, htold _ rfl rfl⟩
  | stuck root e => exact ⟨_, rfl, htold _ rfl rfl⟩

/-- The analyzing stage does to the file system what the analyzer does, and disposes of the copy if
that fails. -/
theorem analyzing_cases (host : Host) (p : Job) (copy : WorkingCopy) (s : Progress) :
    (∃ found s', p.analyzing host copy s = (.ok found, s') ∧
      host.makeIndex copy p.indexerCall s.files = (.ok found, s'.files)) ∨
    ∃ c gs s', p.analyzing host copy s = (.error (.analyzing c), s') ∧
      host.makeIndex copy p.indexerCall s.files = (.error c, gs) ∧
      p.DisposedOf host copy gs s' := by
  unfold analyzing
  simp only [Effect.bind_apply, enter_apply, tell_apply, perform_apply]
  rcases h : host.makeIndex copy p.indexerCall s.files with ⟨c | found, gs⟩
  · refine Or.inr ⟨c, gs, ?_⟩
    simp only [Effect.bind_apply, fail_apply]
    generalize hs : Progress.mk _ _ _ _ = s'
    obtain ⟨s'', hdispose, hdisposed⟩ := disposeCopy_apply host p copy s'
    have hfiles : s'.files = gs := by rw [← hs]
    rw [hfiles] at hdisposed
    exact ⟨s'', by rw [hdispose]; rfl, trivial, hdisposed⟩
  · refine Or.inl ⟨found, ?_⟩
    dsimp only
    split
    · exact ⟨_, rfl, rfl⟩
    · exact ⟨_, rfl, rfl⟩

/-- The converting stage does to the file system what the export does, and disposes of the copy if
that fails. -/
theorem converting_cases (host : Host) (p : Job) (copy : WorkingCopy) (found : FoundIndex)
    (s : Progress) :
    (∃ exported s', p.converting host copy found s = (.ok exported, s') ∧
      host.exportJson found.index p.request.jsonOutput p.exporterCall s.files =
        (.ok exported, s'.files)) ∨
    ∃ c gs s', p.converting host copy found s = (.error (.converting c), s') ∧
      host.exportJson found.index p.request.jsonOutput p.exporterCall s.files = (.error c, gs) ∧
      p.DisposedOf host copy gs s' := by
  unfold converting
  simp only [Effect.bind_apply, enter_apply, perform_apply]
  rcases h : host.exportJson found.index p.request.jsonOutput p.exporterCall s.files with
    ⟨c | exported, gs⟩
  · refine Or.inr ⟨c, gs, ?_⟩
    simp only [Effect.bind_apply, fail_apply]
    generalize hs : Progress.mk _ _ _ _ = s'
    obtain ⟨s'', hdispose, hdisposed⟩ := disposeCopy_apply host p copy s'
    have hfiles : s'.files = gs := by rw [← hs]
    rw [hfiles] at hdisposed
    exact ⟨s'', by rw [hdispose]; rfl, trivial, hdisposed⟩
  · exact Or.inl ⟨exported, _, rfl, rfl⟩

/-- The last file system of a passage is what the run leaves. -/
theorem getLast?_passage (host : Host) (p : Job) (fs : FileSystem) :
    (p.passage host fs).getLast? = some (p.run host fs).files := by
  have hrun : (p.run host fs).files = (p.stages host ⟨fs, p.state, p.warnings, []⟩).2.files := rfl
  rw [hrun]
  generalize hs : Progress.mk fs p.state p.warnings [] = s
  have hfiles : fs = s.files := by rw [← hs]
  unfold passage stages
  rw [Effect.bind_apply, hfiles]
  rcases copying_cases host p s with ⟨copy, s₁, hcopying, hcopy⟩ | ⟨c, s₁, hcopying, hcopy⟩
  · rw [hcopying, hcopy]
    dsimp only
    rw [List.getLast?_cons_cons]
    unfold passageOn
    rw [Effect.bind_apply]
    rcases analyzing_cases host p copy s₁ with ⟨found, s₂, hanalyzing, hindex⟩ |
      ⟨c, gs, s₂, hanalyzing, hindex, hdisposed⟩
    · rw [hanalyzing, hindex]
      dsimp only
      rw [Effect.bind_apply]
      rcases converting_cases host p copy found s₂ with ⟨exported, s₃, hconverting, hexport⟩ |
        ⟨c, gs, s₃, hconverting, hexport, hdisposed⟩
      · rw [hconverting, hexport, ← List.cons_append, ← List.cons_append, List.getLast?_concat]
        simp only [Effect.bind_apply, modify_apply]
        obtain ⟨s₄, hdispose, hdisposed⟩ :=
          disposeCopy_apply host p copy { s₃ with state := .done }
        rw [hdispose, ← hdisposed.files]
        rfl
      · rw [hconverting, hexport, hdisposed.files, ← List.cons_append, ← List.cons_append,
          List.getLast?_concat]
    · rw [hanalyzing, hindex, hdisposed.files]
      rfl
  · rw [hcopying, hcopy]
    rfl

end Job

end CodeIndex

import CodeIndex.Proofs.Job.Ends

/-!
# The course of a run

What a job remembers has no part in what a run does: where the run ends, what it tells and what it
does to the file system are settled by what is asked of it and by what is there. The memory comes in
once, in the account of a run that succeeds.

* `Course`, `Job.course` : where a run ends, and what became of its copy;
* `Course.events`, `Course.outcome`, `Course.after` : what the run tells, what comes of it, and how
  it leaves the job;
* `Job.run_eq` : a run takes its course.
-/

namespace CodeIndex

variable {host : Host} {p : Job} {copy : WorkingCopy} {found : FoundIndex} {fs : FileSystem}

namespace Event

/-- The text of a warning. -/
def warning? : Event → Option String
  | .warning text => some text
  | _ => none

end Event

/-- The warnings that are told. -/
def warningsIn (events : List Event) : List String := events.filterMap Event.warning?

theorem warningsIn_append (before after : List Event) :
    warningsIn (before ++ after) = warningsIn before ++ warningsIn after :=
  List.filterMap_append

/-- What the observer is told of the failure of a stage. -/
def StageError.event (e : StageError) : Event := .failed e.stage e.message

/-- Where a run ends, and what became of its copy. -/
inductive Course
  | uncopied (cause : CopyError)
  | unindexed (copy : WorkingCopy) (cause : IndexingError) (disposal : Disposal)
  | unexported (copy : WorkingCopy) (found : FoundIndex) (cause : ExportError)
      (disposal : Disposal)
  | completed (copy : WorkingCopy) (found : FoundIndex) (exported : Exported)
      (disposal : Disposal)

namespace Job

/-- The course of a run, and what it leaves. -/
def course (host : Host) (p : Job) (fs : FileSystem) : Course × FileSystem :=
  match host.makeWorkingCopy p.request p.settings fs with
  | (.error c, gs) => (.uncopied c, gs)
  | (.ok copy, gs) =>
    match host.makeIndex copy p.indexerCall gs with
    | (.error c, hs) => (host.dispose copy p.request.keepCopy hs).map (.unindexed copy c) id
    | (.ok found, hs) =>
      match host.exportJson found.index p.request.jsonOutput p.exporterCall hs with
      | (.error c, ks) => (host.dispose copy p.request.keepCopy ks).map (.unexported copy found c) id
      | (.ok exported, ks) =>
        (host.dispose copy p.request.keepCopy ks).map (.completed copy found exported) id

/-! ## What is told -/

/-- What is told before a project is copied. -/
def toldOfProject (p : Job) : List Event :=
  [.started .copying, .info ("Copying project from " ++ p.request.source.text)]

/-- What is told of a copy that was made. -/
def toldOfCopy (p : Job) (copy : WorkingCopy) : List Event :=
  p.toldOfProject ++ [.finished .copying ("Project copied to " ++ copy.path.text)]

/-- What is told before the analyzer runs. -/
def toldOfAnalyzer (p : Job) (copy : WorkingCopy) : List Event :=
  [.started .analyzing, .info ("Executing: " ++ p.indexerCall.tool.name ++ " " ++
    p.indexerCall.subcommand ++ " . (in " ++ copy.path.text ++ ")")]

/-- The warning about an index, if it had to be searched. -/
def searchWarning? (p : Job) (copy : WorkingCopy) (found : FoundIndex) : Option String :=
  if found.sighting = .searched then
    some ("index not at " ++ (copy.path.child p.indexerCall.expectedName).text ++
      ", found by search: " ++ found.index.text)
  else none

/-- What is told of the search for an index. -/
def toldOfSearch (p : Job) (copy : WorkingCopy) (found : FoundIndex) : List Event :=
  (p.searchWarning? copy found).toList.map .warning

/-- What is told of an index that was made. -/
def toldOfIndex (p : Job) (copy : WorkingCopy) (found : FoundIndex) : List Event :=
  p.toldOfAnalyzer copy ++ p.toldOfSearch copy found ++
    [.finished .analyzing ("SCIP index: " ++ found.index.text)]

/-- What is told of an export. -/
def toldOfExport (exported : Exported) : List Event :=
  [.started .converting, .finished .converting ("JSON export: " ++ exported.output.text ++ " (" ++
    Size.text exported.bytes ++ ")")]

end Job

namespace Course

/-- What is told in a run. -/
def events (p : Job) : Course → List Event
  | .uncopied c => p.toldOfProject ++ [(StageError.copying c).event]
  | .unindexed copy c disposal =>
    p.toldOfCopy copy ++ p.toldOfAnalyzer copy ++ [(StageError.analyzing c).event, disposal.event]
  | .unexported copy found c disposal =>
    p.toldOfCopy copy ++ p.toldOfIndex copy found ++
      [.started .converting, (StageError.converting c).event, disposal.event]
  | .completed copy found exported disposal =>
    p.toldOfCopy copy ++ p.toldOfIndex copy found ++ Job.toldOfExport exported ++ [disposal.event]

/-- The failure that ended a run. -/
def failure? : Course → Option StageError
  | .uncopied c => some (.copying c)
  | .unindexed _ c _ => some (.analyzing c)
  | .unexported _ _ c _ => some (.converting c)
  | .completed _ _ _ _ => none

/-- The warnings that a job remembers at the end of a run. -/
def warnings (p : Job) (course : Course) : List String := p.warnings ++ warningsIn (course.events p)

/-- What comes of a run. All warnings that are remembered are in the account of it. -/
def outcome (p : Job) (course : Course) : Except StageError Account :=
  match course with
  | .uncopied c => .error (.copying c)
  | .unindexed _ c _ => .error (.analyzing c)
  | .unexported _ _ c _ => .error (.converting c)
  | .completed copy found exported disposal =>
    .ok (p.account copy disposal found exported (course.warnings p))

/-- The job as a run leaves it. -/
def after (p : Job) (course : Course) : Job :=
  match course.failure? with
  | none => { p with state := .done, warnings := [] }
  | some e => { p with state := .failed e.stage, warnings := course.warnings p }

end Course

namespace Job

open Running

/-! ## The stages -/

theorem warn_apply (text : String) (s : Progress) : warn text s = (.ok (),
    { s with warnings := s.warnings ++ [text], events := s.events ++ [.warning text] }) := rfl

theorem disposeCopy_eq (host : Host) (p : Job) (copy : WorkingCopy) (s : Progress) :
    p.disposeCopy host copy s =
      (.ok (host.dispose copy p.request.keepCopy s.files).1.isKept,
        ⟨(host.dispose copy p.request.keepCopy s.files).2, s.state,
          s.warnings ++ warningsIn [(host.dispose copy p.request.keepCopy s.files).1.event],
          s.events ++ [(host.dispose copy p.request.keepCopy s.files).1.event]⟩) := by
  unfold disposeCopy
  simp only [Effect.bind_apply, performSafely_apply]
  rcases host.dispose copy p.request.keepCopy s.files with ⟨disposal, gs⟩
  cases disposal with
  | removed root =>
    have hnone : warningsIn [(Disposal.removed root).event] = [] := rfl
    rw [hnone, List.append_nil]
    rfl
  | kept path notice =>
    have hnone : warningsIn [(Disposal.kept path notice).event] = [] := rfl
    rw [hnone, List.append_nil]
    rfl
  | stuck root e => rfl

theorem copying_eq (host : Host) (p : Job) (s : Progress) :
    p.copying host s = match host.makeWorkingCopy p.request p.settings s.files with
      | (.error c, gs) => (.error (.copying c), ⟨gs, .failed .copying, s.warnings,
          s.events ++ (p.toldOfProject ++ [(StageError.copying c).event])⟩)
      | (.ok copy, gs) =>
        (.ok copy, ⟨gs, .running .copying, s.warnings, s.events ++ p.toldOfCopy copy⟩) := by
  unfold copying toldOfCopy toldOfProject
  simp only [Effect.bind_apply, enter_apply, tell_apply, perform_apply]
  rcases host.makeWorkingCopy p.request p.settings s.files with ⟨c | copy, gs⟩
  · simp only [Effect.bind_apply, fail_apply, List.append_assoc, List.cons_append, List.nil_append]
    rfl
  · simp only [Effect.bind_apply, tell_apply, List.append_assoc, List.cons_append, List.nil_append]
    rfl

theorem analyzing_eq (host : Host) (p : Job) (copy : WorkingCopy) (s : Progress) :
    p.analyzing host copy s = match host.makeIndex copy p.indexerCall s.files with
      | (.error c, gs) =>
        let disposed := host.dispose copy p.request.keepCopy gs
        (.error (.analyzing c), ⟨disposed.2, .failed .analyzing,
          s.warnings ++ warningsIn [disposed.1.event],
          s.events ++ (p.toldOfAnalyzer copy ++ [(StageError.analyzing c).event, disposed.1.event])⟩)
      | (.ok found, gs) => (.ok found, ⟨gs, .running .analyzing,
          s.warnings ++ warningsIn (p.toldOfSearch copy found),
          s.events ++ p.toldOfIndex copy found⟩) := by
  unfold analyzing toldOfIndex toldOfAnalyzer toldOfSearch searchWarning?
  simp only [Effect.bind_apply, enter_apply, tell_apply, perform_apply]
  rcases host.makeIndex copy p.indexerCall s.files with ⟨c | found, gs⟩
  · simp only [Effect.bind_apply, fail_apply, disposeCopy_eq, List.append_assoc, List.cons_append,
      List.nil_append]
    rfl
  · by_cases hsearched : found.sighting = .searched
    · simp only [if_pos hsearched, Effect.bind_apply, warn_apply, tell_apply, List.append_assoc,
        List.cons_append, List.nil_append]
      rfl
    · simp only [if_neg hsearched, Effect.bind_apply, tell_apply, List.append_assoc,
        List.cons_append, List.nil_append]
      have hnone : warningsIn ((none : Option String).toList.map .warning) = [] := rfl
      rw [hnone, List.append_nil]
      rfl

theorem converting_eq (host : Host) (p : Job) (copy : WorkingCopy) (found : FoundIndex)
    (s : Progress) : p.converting host copy found s =
      match host.exportJson found.index p.request.jsonOutput p.exporterCall s.files with
      | (.error c, gs) =>
        let disposed := host.dispose copy p.request.keepCopy gs
        (.error (.converting c), ⟨disposed.2, .failed .converting,
          s.warnings ++ warningsIn [disposed.1.event],
          s.events ++ [.started .converting, (StageError.converting c).event, disposed.1.event]⟩)
      | (.ok exported, gs) =>
        (.ok exported, ⟨gs, .running .converting, s.warnings, s.events ++ toldOfExport exported⟩) := by
  unfold converting toldOfExport
  simp only [Effect.bind_apply, enter_apply, perform_apply]
  rcases host.exportJson found.index p.request.jsonOutput p.exporterCall s.files with
    ⟨c | exported, gs⟩
  · simp only [Effect.bind_apply, fail_apply, disposeCopy_eq, List.append_assoc, List.cons_append,
      List.nil_append]
    rfl
  · simp only [Effect.bind_apply, tell_apply, List.append_assoc, List.cons_append, List.nil_append]
    rfl

/-! ## The whole run -/

theorem warningsIn_toldOfIndex (p : Job) (copy : WorkingCopy) (found : FoundIndex) :
    warningsIn (p.toldOfIndex copy found) = warningsIn (p.toldOfSearch copy found) := by
  unfold toldOfIndex
  rw [warningsIn_append, warningsIn_append]
  have hstart : warningsIn (p.toldOfAnalyzer copy) = [] := rfl
  have hend : ∀ text, warningsIn [.finished .analyzing text] = [] := fun _ => rfl
  rw [hstart, hend, List.nil_append, List.append_nil]

end Job

/-- The warnings of a run are that of a searched index and that of a copy that is stuck. -/
theorem Course.warnings_eq (p : Job) (course : Course) :
    course.warnings p = p.warnings ++ match course with
      | .uncopied _ => []
      | .unindexed _ _ disposal => warningsIn [disposal.event]
      | .unexported copy found _ disposal | .completed copy found _ disposal =>
        warningsIn (p.toldOfSearch copy found) ++ warningsIn [disposal.event] := by
  have hcopy : ∀ copy, warningsIn (p.toldOfCopy copy) = [] := fun _ => rfl
  unfold Course.warnings
  congr 1
  cases course with
  | uncopied c => rfl
  | unindexed copy c disposal => rfl
  | unexported copy found c disposal =>
    unfold Course.events
    rw [warningsIn_append, warningsIn_append, hcopy, Job.warningsIn_toldOfIndex]
    rfl
  | completed copy found exported disposal =>
    have hexport : warningsIn (Job.toldOfExport exported) = [] := rfl
    unfold Course.events
    rw [warningsIn_append, warningsIn_append, warningsIn_append, hcopy, Job.warningsIn_toldOfIndex,
      hexport, List.append_nil]
    rfl

namespace Job

/-- A run takes its course, and its job remembers what the course says. -/
theorem run_eq (host : Host) (p : Job) (fs : FileSystem) :
    p.run host fs = ⟨(p.course host fs).1.outcome p, (p.course host fs).1.events p,
      (p.course host fs).2, (p.course host fs).1.after p⟩ := by
  unfold run stages course
  rw [Effect.bind_apply, copying_eq]
  rcases host.makeWorkingCopy p.request p.settings fs with ⟨c | copy, gs⟩
  · have hwarnings : (Course.uncopied c).warnings p = p.warnings := List.append_nil _
    dsimp only [Course.outcome, Course.events, Course.after, Course.failure?]
    rw [hwarnings]
    rfl
  dsimp only
  rw [Effect.bind_apply, analyzing_eq]
  rcases host.makeIndex copy p.indexerCall gs with ⟨c | found, hs⟩
  · dsimp only
    rcases host.dispose copy p.request.keepCopy hs with ⟨disposal, ks⟩
    dsimp only [Prod.map, id, Course.outcome, Course.events, Course.after, Course.failure?]
    rw [Course.warnings_eq, List.nil_append, List.append_assoc]
    rfl
  dsimp only
  rw [Effect.bind_apply, converting_eq]
  rcases host.exportJson found.index p.request.jsonOutput p.exporterCall hs with
    ⟨c | exported, ks⟩
  · dsimp only
    rcases host.dispose copy p.request.keepCopy ks with ⟨disposal, ls⟩
    dsimp only [Prod.map, id, Course.outcome, Course.events, Course.after, Course.failure?]
    rw [Course.warnings_eq, List.nil_append]
    dsimp only
    rw [← List.append_assoc p.warnings]
    rfl
  · simp only [Effect.bind_apply, modify_apply, disposeCopy_eq]
    rcases host.dispose copy p.request.keepCopy ks with ⟨disposal, ls⟩
    dsimp only [Prod.map, id, Course.outcome, Course.events, Course.after, Course.failure?]
    rw [Course.warnings_eq, List.nil_append]
    dsimp only
    rw [← List.append_assoc p.warnings]
    rfl

end Job

end CodeIndex

import CodeIndex.Proofs.Job.Course
import CodeIndex.Proofs.Job.Source

/-!
# Successive runs

A job can be run again. What it carries from one run to the next is the state it was left in, which
no run looks at, and the warnings that were told and are in no account. A run that succeeds reports
all of these and carries none on; a run that fails adds its own. So a run after others is like the
first one, but that its account may have warnings of runs that failed before it.

* `Job.history`, `Job.afterAll` : the results of successive runs, and the job after them;
* `unreported` : the warnings that were told since the last account;
* `Job.afterAll_eq` : what a job carries on;
* `Job.like_first_iff` : when a run after others is like the first one.
-/

namespace CodeIndex

variable {host : Host} {p : Job} {fs : FileSystem}

/-- The warnings that are in no account when a run is over. -/
def carriedOn (pending : List String) (r : Job.RunResult) : List String :=
  if r.outcome.isOk then [] else pending ++ warningsIn r.events

/-- The warnings that successive runs told since the last of them that succeeded. -/
def unreported (results : List Job.RunResult) : List String := results.foldl carriedOn []

namespace Job

/-- The job with nothing to remember. -/
def fresh (p : Job) : Job := { p with state := .idle, warnings := [] }

/-- The results of successive runs, each in its surroundings and on its file system. -/
def history (p : Job) : List (Host × FileSystem) → List RunResult
  | [] => []
  | (host, fs) :: later => p.run host fs :: (p.run host fs).job.history later

/-- The job after successive runs. -/
def afterAll (p : Job) : List (Host × FileSystem) → Job
  | [] => p
  | (host, fs) :: later => (p.run host fs).job.afterAll later

/-! ## What is carried on -/

/-- A run changes nothing of its job but what is remembered, and that is what no account has. -/
theorem run_job (host : Host) (p : Job) (fs : FileSystem) :
    ∃ state, (p.run host fs).job =
      { p with state := state, warnings := carriedOn p.warnings (p.run host fs) } := by
  rw [run_eq]
  cases (p.course host fs).1 with
  | completed copy found exported disposal => exact ⟨.done, rfl⟩
  | uncopied c => exact ⟨.failed .copying, rfl⟩
  | unindexed copy c disposal => exact ⟨.failed .analyzing, rfl⟩
  | unexported copy found c disposal => exact ⟨.failed .converting, rfl⟩

/-- So it is with successive runs. -/
theorem afterAll_eq (p : Job) (earlier : List (Host × FileSystem)) :
    ∃ state, p.afterAll earlier =
      { p with state := state, warnings := (p.history earlier).foldl carriedOn p.warnings } := by
  induction earlier generalizing p with
  | nil => exact ⟨p.state, rfl⟩
  | cons run later ih =>
    obtain ⟨host, fs⟩ := run
    obtain ⟨state, hjob⟩ := p.run_job host fs
    obtain ⟨state', hlater⟩ := ih (p.run host fs).job
    refine ⟨state', ?_⟩
    unfold afterAll history
    rw [List.foldl_cons, hlater, hjob]

/-- A job that had nothing to remember carries on what no account has. -/
theorem fresh_afterAll (p : Job) (earlier : List (Host × FileSystem)) :
    ∃ state, p.fresh.afterAll earlier =
      { p with state := state, warnings := unreported (p.fresh.history earlier) } :=
  p.fresh.afterAll_eq earlier

end Job

/-- The same report, with other warnings before its own. -/
def Account.withEarlier (a : Account) (pending : List String) : Account :=
  { a with warnings := pending ++ a.warnings }

theorem Account.withEarlier_eq_iff (a : Account) (pending : List String) :
    a.withEarlier pending = a ↔ pending = [] := by
  constructor
  · intro h
    have hwarnings : pending ++ a.warnings = a.warnings := congrArg Account.warnings h
    exact List.append_left_eq_self.mp hwarnings
  · rintro rfl
    rfl

namespace Job

/-! ## Runs after others -/

/-- The report of a first run has the warnings that were told in it. -/
theorem warnings_of_fresh {a : Account} (h : (p.fresh.run host fs).outcome = .ok a) :
    a.warnings = warningsIn (p.fresh.run host fs).events := by
  rw [run_eq] at h ⊢
  cases hcourse : (p.fresh.course host fs).1 with
  | completed copy found exported disposal =>
    rw [hcourse] at h
    rw [← Except.ok.inj h]
    rfl
  | _ =>
    rw [hcourse] at h
    cases h

/-- What a job remembers has no part in the course of a run. -/
theorem course_remembering (host : Host) (p : Job) (fs : FileSystem) (state : JobState)
    (pending : List String) :
    { p with state := state, warnings := pending : Job }.course host fs = p.course host fs := rfl

/-- What a job remembers is in the report of a run that succeeds, and nowhere else. -/
theorem run_remembering (host : Host) (p : Job) (fs : FileSystem) (state : JobState)
    (pending : List String) :
    let next := { p with state := state, warnings := pending : Job }.run host fs
    let first := p.fresh.run host fs
    next.events = first.events ∧ next.files = first.files ∧ next.job.state = first.job.state ∧
      next.outcome = first.outcome.map (·.withEarlier pending) := by
  have hfirst : p.fresh.course host fs = p.course host fs :=
    course_remembering host p fs .idle []
  dsimp only
  rw [run_eq, run_eq, hfirst, course_remembering]
  refine ⟨rfl, rfl, ?_, ?_⟩
  · cases (p.course host fs).1 <;> rfl
  · cases (p.course host fs).1 <;> rfl

/-- A run after others does and tells what the first run of such a job would, and ends as that
would. It has the same outcome, with the warnings that were told in it and no others, exactly if it
fails or if no warning was told since the last run that succeeded. -/
theorem like_first_iff (host : Host) (p : Job) (fs : FileSystem)
    (earlier : List (Host × FileSystem)) :
    let next := (p.fresh.afterAll earlier).run host fs
    let first := p.fresh.run host fs
    let pending := unreported (p.fresh.history earlier)
    next.events = first.events ∧ next.files = first.files ∧ next.job.state = first.job.state ∧
      next.outcome = first.outcome.map (·.withEarlier pending) ∧
      ((next.outcome = first.outcome ∧
          ∀ a, next.outcome = .ok a → a.warnings = warningsIn next.events) ↔
        (∃ e, next.outcome = .error e) ∨ pending = []) := by
  obtain ⟨state, hnext⟩ := p.fresh_afterAll earlier
  obtain ⟨hevents, hfiles, hstate, houtcome⟩ :=
    run_remembering host p fs state (unreported (p.fresh.history earlier))
  dsimp only
  rw [hnext]
  refine ⟨hevents, hfiles, hstate, houtcome, ?_⟩
  rw [hevents, houtcome]
  cases hfirst : (p.fresh.run host fs).outcome with
  | error e =>
    refine iff_of_true ⟨rfl, fun a ha => ?_⟩ (Or.inl ⟨e, rfl⟩)
    cases ha
  | ok b =>
    constructor
    · rintro ⟨hsame, -⟩
      exact Or.inr ((b.withEarlier_eq_iff _).mp (Except.ok.inj hsame))
    · rintro (⟨e, he⟩ | hnone)
      · cases he
      · have hsame : b.withEarlier (unreported (p.fresh.history earlier)) = b :=
          (b.withEarlier_eq_iff _).mpr hnone
        refine ⟨congrArg Except.ok hsame, fun a ha => ?_⟩
        have hab : b.withEarlier (unreported (p.fresh.history earlier)) = a := Except.ok.inj ha
        rw [← hab, hsame]
        exact warnings_of_fresh hfirst

/-! ## A warning that comes late -/

/-- Surroundings in which the index is not where it should be, and the exporter fails. -/
def strayHost : Host :=
  workingHost.withBehaviour fun launch fs _ =>
    match launch.stdout with
    | some _ => .ended fs [] [] (.exited 1) 0
    | none =>
      if fs.isDirAt copiedPlace then
        .ended (fs.putNewFile (copiedPlace ++ ["main.scip"]) fileMode) [] [] (.exited 0) 0
      else .ended fs [] [] (.exited 0) 0

/-- The warning about the index that is not where it should be. -/
def strayWarning : String :=
  "index not at /tmp/scip_analysis_x/proj/index.scip, found by search: " ++
    "/tmp/scip_analysis_x/proj/main.scip"

/-- A run that succeeds after one that failed reports the warning of the one that failed, where the
first run of such a job reports none, as none was told. -/
theorem late_warning_reported :
    let next := (notesJob.fresh.afterAll [(strayHost, notesWith [] 3)]).run workingHost
      (notesWith [] 3)
    next.outcome.toOption.map Account.warnings = some [strayWarning] ∧
    (notesJob.fresh.run workingHost (notesWith [] 3)).outcome.toOption.map Account.warnings =
      some [] ∧
    warningsIn next.events = [] := by
  have hwarned : unreported (notesJob.fresh.history [(strayHost, notesWith [] 3)]) =
      [strayWarning] := by decide +kernel
  have hfirst : (notesJob.fresh.run workingHost (notesWith [] 3)).outcome.toOption.map
      Account.warnings = some [] := by decide +kernel
  obtain ⟨state, hnext⟩ := notesJob.fresh_afterAll [(strayHost, notesWith [] 3)]
  obtain ⟨hevents, -, -, houtcome⟩ :=
    run_remembering workingHost notesJob (notesWith [] 3) state [strayWarning]
  rw [hwarned] at hnext
  dsimp only
  rw [hnext, houtcome, hevents]
  cases hout : (notesJob.fresh.run workingHost (notesWith [] 3)).outcome with
  | error e =>
    rw [hout] at hfirst
    cases hfirst
  | ok a =>
    rw [hout] at hfirst
    have hnone : a.warnings = [] := Option.some.inj hfirst
    refine ⟨?_, hfirst, ?_⟩
    · change some ([strayWarning] ++ a.warnings) = some [strayWarning]
      rw [hnone, List.append_nil]
    · rw [← warnings_of_fresh hout]
      exact hnone

end Job

end CodeIndex

import CodeIndex.Proofs.Job.History

/-!
# The protocol of the stages

Whoever observes a run sees the stages start and end in their order, up to the one that fails, and
after that no stage any more. A warning in between tells of an index that had to be searched, and one
at the end of a copy that could not be removed; there are no others.

* `Signal`, `signals` : what is observed of the stages, and the warnings;
* `protocol` : what is to be observed;
* `Course.signals_eq` : what is observed of a course;
* `Job.course_withBehaviour` : what programs of later stages would do plays no part in a failure;
* `Job.protocol_kept` : runs keep to the protocol, whatever came before them.
-/

namespace CodeIndex

variable {host : Host} {p : Job} {fs gs : FileSystem} {copy : WorkingCopy}

/-! ## The protocol -/

/-- What is observed of the stages of a run, and the warnings. -/
inductive Signal
  | started (stage : Stage)
  | finished (stage : Stage)
  | failed (stage : Stage)
  | warned (text : String)
  deriving Repr, DecidableEq

/-- What an event signals. Mere information is no signal. -/
def Event.signal? : Event → Option Signal
  | .started stage => some (.started stage)
  | .finished stage _ => some (.finished stage)
  | .failed stage _ => some (.failed stage)
  | .warning text => some (.warned text)
  | .info _ => none

/-- The signals among events. -/
def signals (events : List Event) : List Signal := events.filterMap Event.signal?

namespace Stage

/-- The stages in their order. -/
def all : List Stage := [.copying, .analyzing, .converting]

/-- The stages that come before a stage. -/
def before (stage : Stage) : List Stage := all.filter (·.ordinal < stage.ordinal)

/-- The signals of a stage that is passed, with the warning about a searched index. -/
def passed (search : Option String) (stage : Stage) : List Signal :=
  .started stage :: (if stage = .analyzing then search.toList.map .warned else []) ++
    [.finished stage]

end Stage

/-- What is to be observed of a run that fails in a stage, or in none. The first warning is about a
searched index, and the last one about a copy that is stuck. -/
def protocol (search stuck : Option String) (failing : Option Stage) : List Signal :=
  (match failing with
    | none => Stage.all.flatMap (Stage.passed search)
    | some stage => stage.before.flatMap (Stage.passed search) ++ [.started stage, .failed stage]) ++
    stuck.toList.map .warned

/-! ## What is observed -/

namespace Course

/-- The warning about the index, if it had to be searched. -/
def search? (p : Job) : Course → Option String
  | .uncopied _ | .unindexed _ _ _ => none
  | .unexported copy found _ _ | .completed copy found _ _ => p.searchWarning? copy found

/-- The warning about the copy, if it could not be removed. -/
def stuck? : Course → Option String
  | .uncopied _ => none
  | .unindexed _ _ disposal | .unexported _ _ _ disposal | .completed _ _ _ disposal =>
    disposal.event.warning?

/-- Of a course is observed what is to be observed. -/
theorem signals_eq (p : Job) (course : Course) : signals (course.events p) =
    protocol (course.search? p) course.stuck? (course.failure?.map StageError.stage) := by
  cases course with
  | uncopied c => rfl
  | unindexed copy c disposal => cases disposal <;> rfl
  | unexported copy found c disposal =>
    unfold events Job.toldOfIndex Job.toldOfSearch search?
    dsimp only
    generalize p.searchWarning? copy found = search
    cases search <;> cases disposal <;> rfl
  | completed copy found exported disposal =>
    unfold events Job.toldOfIndex Job.toldOfSearch search?
    dsimp only
    generalize p.searchWarning? copy found = search
    cases search <;> cases disposal <;> rfl

/-- A failed export, of an index that had to be searched. -/
example : protocol (some "found by search") none (some .converting) =
    [.started .copying, .finished .copying, .started .analyzing, .warned "found by search",
      .finished .analyzing, .started .converting, .failed .converting] := by
  decide

end Course

/-- The stage that a program is started for. The output of the exporter goes to a file, that of the
analyzer does not. -/
def Launch.stage (launch : Launch) : Stage :=
  if launch.stdout.isSome then .converting else .analyzing

namespace Host

/-- What programs do matters to the run of a command only where this one is started. -/
theorem run_withBehaviour {b : Behaviour} {name : String} {command : Command}
    {stdout : Option OpenFile} {limit : Option Nat}
    (h : ∀ launch allowance, launch.stdout = stdout →
      b launch fs allowance = host.behaviour launch fs allowance) :
    (host.withBehaviour b).run name command stdout limit fs =
      host.run name command stdout limit fs := by
  have htemp : (host.withBehaviour b).checkTempDir fs = host.checkTempDir fs := rfl
  have hlaunch : (host.withBehaviour b).launch fs command stdout =
      host.launch fs command stdout := rfl
  unfold run
  rw [htemp, hlaunch]
  cases host.checkTempDir fs with
  | error e => rfl
  | ok u =>
    cases hstarted : host.launch fs command stdout with
    | error e => rfl
    | ok launch =>
      obtain ⟨hstdout, -⟩ := launch_eq_ok hstarted
      have hdoes : (host.withBehaviour b).behaviour launch fs (limit.map lastPoll) =
          host.behaviour launch fs (limit.map lastPoll) := h launch _ hstdout
      dsimp only
      rw [hdoes]

/-- To the analysis only the start of the analyzer matters. -/
theorem makeIndex_withBehaviour {b : Behaviour} {call : IndexerCall}
    (h : ∀ launch allowance, launch.stdout = none →
      b launch fs allowance = host.behaviour launch fs allowance) :
    (host.withBehaviour b).makeIndex copy call fs = host.makeIndex copy call fs := by
  rw [makeIndex_apply, makeIndex_apply, run_withBehaviour h]
  rfl

theorem makeTempDir_withBehaviour (host : Host) (b : Behaviour) (start : String)
    (draws draw : Nat) :
    (host.withBehaviour b).makeTempDir start draws draw = host.makeTempDir start draws draw := by
  induction draws generalizing draw with
  | zero => rfl
  | succ draws ih =>
    unfold makeTempDir
    rw [ih]
    rfl

/-- No program has a part in the copying of a project. -/
theorem makeWorkingCopy_withBehaviour (host : Host) (b : Behaviour) (request : Request)
    (settings : Settings) :
    (host.withBehaviour b).makeWorkingCopy request settings =
      host.makeWorkingCopy request settings := by
  have hplace : ∀ name, (host.withBehaviour b).placeWorkingCopy request settings name =
      host.placeWorkingCopy request settings name := by
    intro name
    unfold placeWorkingCopy
    rw [makeTempDir_withBehaviour]
    rfl
  unfold makeWorkingCopy copyProject prepareCopy
  simp only [hplace]
  rfl

end Host

namespace Job

/-! ## Where the warnings come from -/

/-- The warning about the index of a run, if it has to be searched. -/
def searched? (host : Host) (p : Job) (fs : FileSystem) : Option String :=
  match host.makeWorkingCopy p.request p.settings fs with
  | (.error _, _) => none
  | (.ok copy, gs) =>
    match host.makeIndex copy p.indexerCall gs with
    | (.error _, _) => none
    | (.ok found, _) => p.searchWarning? copy found

/-- The warning about the copy of a run, if it cannot be removed when the work on it is over. -/
def stuck? (host : Host) (p : Job) (fs : FileSystem) : Option String :=
  match host.makeWorkingCopy p.request p.settings fs with
  | (.error _, _) => none
  | (.ok copy, gs) =>
    match (host.dispose copy p.request.keepCopy (p.workOn host copy gs).2).1 with
    | .stuck root e =>
      some ("could not remove temporary workspace " ++ root.text ++ ": " ++ e.message)
    | _ => none

theorem search?_course (host : Host) (p : Job) (fs : FileSystem) :
    (p.course host fs).1.search? p = p.searched? host fs := by
  unfold course searched?
  rcases host.makeWorkingCopy p.request p.settings fs with ⟨c | copy, gs⟩
  · rfl
  dsimp only
  rcases host.makeIndex copy p.indexerCall gs with ⟨c | found, hs⟩
  · rfl
  dsimp only
  rcases host.exportJson found.index p.request.jsonOutput p.exporterCall hs with
    ⟨c | exported, ks⟩ <;> rfl

theorem stuck?_course (host : Host) (p : Job) (fs : FileSystem) :
    (p.course host fs).1.stuck? = p.stuck? host fs := by
  have hwarning : ∀ disposal : Disposal, disposal.event.warning? = match disposal with
      | .stuck root e =>
        some ("could not remove temporary workspace " ++ root.text ++ ": " ++ e.message)
      | _ => none := by
    intro disposal
    cases disposal <;> rfl
  unfold course stuck?
  rcases host.makeWorkingCopy p.request p.settings fs with ⟨c | copy, gs⟩
  · rfl
  dsimp only
  rw [← hwarning]
  rcases hindex : host.makeIndex copy p.indexerCall gs with ⟨c | found, hs⟩
  · rw [workOn_of_unindexed hindex]
    rfl
  rw [workOn_snd_of_indexed hindex]
  dsimp only
  rcases host.exportJson found.index p.request.jsonOutput p.exporterCall hs with
    ⟨c | exported, ks⟩ <;> rfl

/-! ## What plays no part in a failure -/

/-- What programs of later stages would do plays no part in the course of a run that fails. -/
theorem course_withBehaviour {e : StageError} {b : Behaviour}
    (he : (p.course host fs).1.failure? = some e)
    (hb : ∀ launch os allowance, launch.stage.ordinal ≤ e.stage.ordinal →
      b launch os allowance = host.behaviour launch os allowance) :
    p.course (host.withBehaviour b) fs = p.course host fs := by
  unfold course at he ⊢
  rw [Host.makeWorkingCopy_withBehaviour]
  rcases hcopied : host.makeWorkingCopy p.request p.settings fs with ⟨c | copy, gs⟩
  · rfl
  rw [hcopied] at he
  dsimp only at he ⊢
  have hindex : Stage.analyzing.ordinal ≤ e.stage.ordinal →
      (host.withBehaviour b).makeIndex copy p.indexerCall gs =
        host.makeIndex copy p.indexerCall gs := by
    intro hle
    refine Host.makeIndex_withBehaviour fun launch allowance hstdout => hb launch gs allowance ?_
    unfold Launch.stage
    rw [hstdout]
    exact hle
  rcases hmade : host.makeIndex copy p.indexerCall gs with ⟨c | found, hs⟩
  · rw [hmade] at he
    obtain rfl : StageError.analyzing c = e := Option.some.inj he
    rw [hindex (Nat.le_refl _), hmade]
    rfl
  · -- The exporter was started, so that no program is of a later stage.
    rw [hmade] at he
    dsimp only at he
    have hlast : e.stage = .converting := by
      rcases hexport : host.exportJson found.index p.request.jsonOutput p.exporterCall hs with
        ⟨c | exported, ks⟩ <;> rw [hexport] at he
      · obtain rfl : StageError.converting c = e := Option.some.inj he
        rfl
      · cases he
    have hsame : host.withBehaviour b = host := by
      have hall : b = host.behaviour := by
        funext launch os allowance
        refine hb launch os allowance ?_
        rw [hlast]
        unfold Launch.stage
        split <;> decide
      rw [hall]
      rfl
    rw [hsame, hmade]

/-! ## The protocol is kept -/

namespace RunResult

/-- The stage that failed. -/
def failing? (r : RunResult) : Option Stage :=
  match r.outcome with
  | .ok _ => none
  | .error e => some e.stage

/-- A stage failed if the outcome is an error of that stage. -/
theorem failing?_eq_some {r : RunResult} {stage : Stage} :
    r.failing? = some stage ↔ ∃ e, r.outcome = .error e ∧ e.stage = stage := by
  unfold failing?
  cases r.outcome with
  | ok a => simp
  | error e => simp

end RunResult

theorem failure?_course (host : Host) (p : Job) (fs : FileSystem) :
    (p.course host fs).1.failure? = match (p.run host fs).outcome with
      | .ok _ => none
      | .error e => some e := by
  rw [run_eq]
  cases (p.course host fs).1 <;> rfl

theorem failing?_run (host : Host) (p : Job) (fs : FileSystem) :
    (p.run host fs).failing? = (p.course host fs).1.failure?.map StageError.stage := by
  rw [failure?_course]
  unfold RunResult.failing?
  cases (p.run host fs).outcome <;> rfl

/-- Of a run is observed what is to be observed. -/
theorem signals_run (host : Host) (p : Job) (fs : FileSystem) :
    signals (p.run host fs).events =
      protocol (p.searched? host fs) (p.stuck? host fs) (p.run host fs).failing? := by
  rw [failing?_run, ← search?_course, ← stuck?_course, ← Course.signals_eq, run_eq]

/-- The state that a run leaves is that of its outcome. -/
theorem state_run (host : Host) (p : Job) (fs : FileSystem) :
    (p.run host fs).job.state = match (p.run host fs).outcome with
      | .ok _ => .done
      | .error e => .failed e.stage := by
  rw [run_eq]
  cases (p.course host fs).1 <;> rfl

/-- What programs of later stages would do makes no difference to a run that fails. -/
theorem run_withBehaviour {e : StageError} {b : Behaviour}
    (he : (p.run host fs).outcome = .error e)
    (hb : ∀ launch os allowance, launch.stage.ordinal ≤ e.stage.ordinal →
      b launch os allowance = host.behaviour launch os allowance) :
    p.run (host.withBehaviour b) fs = p.run host fs := by
  have hfailure : (p.course host fs).1.failure? = some e := by
    rw [failure?_course, he]
  rw [run_eq, run_eq host, course_withBehaviour hfailure hb]

/-- Runs keep to the protocol, whatever came before them: the stages are observed in order up to the
one that fails, there is a warning between the start and the end of the analysis exactly if the index
had to be searched, and one after the stages exactly if the copy could not be removed. A run leaves
the job done if it succeeds, and failed in the stage of its error if not. After a failure no program
of a later stage is started: what it would do makes no difference. -/
theorem protocol_kept (host : Host) (p : Job) (fs : FileSystem)
    (earlier : List (Host × FileSystem)) :
    let q := p.afterAll earlier
    let r := q.run host fs
    signals r.events = protocol (p.searched? host fs) (p.stuck? host fs) r.failing? ∧
      (r.job.state = .done ↔ ∃ a, r.outcome = .ok a) ∧
      (∀ stage, r.job.state = .failed stage ↔ ∃ e, r.outcome = .error e ∧ e.stage = stage) ∧
      ∀ e, r.outcome = .error e → ∀ b,
        (∀ launch os allowance, launch.stage.ordinal ≤ e.stage.ordinal →
          b launch os allowance = host.behaviour launch os allowance) →
        q.run (host.withBehaviour b) fs = r := by
  obtain ⟨state, hq⟩ := p.afterAll_eq earlier
  have hsearched : (p.afterAll earlier).searched? host fs = p.searched? host fs := by rw [hq]; rfl
  have hstuck : (p.afterAll earlier).stuck? host fs = p.stuck? host fs := by rw [hq]; rfl
  have hstate := (p.afterAll earlier).state_run host fs
  dsimp only
  rw [← hsearched, ← hstuck]
  refine ⟨signals_run host _ fs, ?_, fun stage => ?_, fun e he b hb => run_withBehaviour he hb⟩
  · rw [hstate]
    cases ((p.afterAll earlier).run host fs).outcome with
    | ok a => exact iff_of_true rfl ⟨a, rfl⟩
    | error e => exact iff_of_false (by simp) (by simp)
  · rw [hstate]
    cases ((p.afterAll earlier).run host fs).outcome with
    | ok a => exact iff_of_false (by simp) (by simp)
    | error e => simp

/-- After a run in which the export failed, a run whose analyzer fails is observed up to the analysis,
and an exporter that would have worked plays no part in it. -/
theorem idle_run_observed :
    let q := notesJob.afterAll [(strayHost, notesWith [] 3)]
    let r := q.run Host.idleHost (notesWith [] 3)
    let working : Behaviour := fun launch fs allowance =>
      if launch.stage = .converting then workingHost.behaviour launch fs allowance
      else Host.idleHost.behaviour launch fs allowance
    signals r.events =
        [.started .copying, .finished .copying, .started .analyzing, .failed .analyzing] ∧
      r.job.state = .failed .analyzing ∧
      q.run (Host.idleHost.withBehaviour working) (notesWith [] 3) = r := by
  have hfailing : ((notesJob.afterAll [(strayHost, notesWith [] 3)]).run Host.idleHost
      (notesWith [] 3)).failing? = some .analyzing := by
    have hcourse : (notesJob.course Host.idleHost (notesWith [] 3)).1.failure?.map
        StageError.stage = some .analyzing := by decide +kernel
    obtain ⟨state, hq⟩ := notesJob.afterAll_eq [(strayHost, notesWith [] 3)]
    rw [failing?_run, hq, course_remembering Host.idleHost notesJob]
    exact hcourse
  have hstuck : notesJob.stuck? Host.idleHost (notesWith [] 3) = none := by decide +kernel
  obtain ⟨hsignals, -, hfailed, hsame⟩ :=
    protocol_kept Host.idleHost notesJob (notesWith [] 3) [(strayHost, notesWith [] 3)]
  obtain ⟨e, he, hstage⟩ := RunResult.failing?_eq_some.mp hfailing
  dsimp only
  refine ⟨?_, (hfailed _).mpr ⟨e, he, hstage⟩, hsame e he _ fun launch os allowance hearly => ?_⟩
  · rw [hsignals, hfailing, hstuck]
    generalize notesJob.searched? Host.idleHost (notesWith [] 3) = search
    rfl
  · rw [if_neg]
    intro hlater
    rw [hlater, hstage] at hearly
    exact absurd hearly (by decide)

end Job

end CodeIndex

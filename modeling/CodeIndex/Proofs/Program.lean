import CodeIndex.Program
import CodeIndex.Proofs.Job.Untouched

/-!
# What the program leaves when it fails

Arguments come to an answer, to a failure, or to a run. What they come to is decided before anything
happens to the file system: the settings are read, the project is looked up, and the tools are found
and asked. A run that fails before it has begun to copy changes nothing either.

* `Plan`, `Host.plan` : what arguments come to;
* `Host.program_of_plan` : how the program ends, and what it leaves;
* `Host.AnswersQuietly` : tools that write nothing when they are asked about themselves;
* `Plan.failsEarly` : the failures that leave no trace;
* `Host.untouched_of_failure` : after them everything is as it was.
-/

namespace CodeIndex

open FileSystem

variable {ε α : Type} {host : Host} {fs gs : FileSystem} {arguments : List String}

/-- What arguments come to: an answer, a failure, or a run. -/
inductive Plan
  | answered
  | misused (cause : CommandLine.Misuse)
  | unconfigured (cause : CommandError)
  | unequipped (cause : MissingTool)
  | equipped (job : Job)

namespace Plan

/-- The plan that an inventory allows. -/
def ofTools (check : Inventory) (next : Toolchain → Plan) : Plan :=
  match check.toolchain with
  | .ok tools => next tools
  | .error e => .unequipped e

/-- What comes of it: whether all goes well, or why a command line is not carried out. -/
def outcome (host : Host) (fs : FileSystem) : Plan → Except CommandError Bool
  | .answered => .ok true
  | .misused _ | .unequipped _ => .ok false
  | .unconfigured e => .error e
  | .equipped p => .ok (p.run host fs).outcome.isOk

/-- What is left. -/
def files (host : Host) (fs : FileSystem) : Plan → FileSystem
  | .equipped p => (p.run host fs).files
  | _ => fs

/-- What is done on a command line is what a plan is. -/
structure Explains (host : Host) (planned : Plan × FileSystem) (r : CommandRun) : Prop where
  files : r.files = planned.1.files host planned.2
  outcome : r.outcome = planned.1.outcome host planned.2

/-- The failures that leave no trace: all those before a run, and in a run those to copy that are
found before anything is made, or that have no destination to fail in. -/
def failsEarly (host : Host) (fs : FileSystem) : Plan → Bool
  | .answered => false
  | .misused _ | .unconfigured _ | .unequipped _ => true
  | .equipped p =>
    match (p.run host fs).outcome with
    | .error (.copying c) => c.isEarly || p.request.destination.isNone
    | _ => false

end Plan

namespace Host

/-- What a command line comes to when settings have been loaded, and what is there when the tools
have been asked. -/
def planWith (host : Host) (line : CommandLine) (settings : Settings) (kind : Analyzer)
    (fs : FileSystem) : Plan × FileSystem :=
  let (check, gs) := host.inventoryOf settings kind fs
  if line.checkTools then (Plan.ofTools check fun _ => .answered, gs)
  else
    match host.requestOf fs line settings kind with
    | .error e => (.unconfigured (.configuration e), fs)
    | .ok request => (Plan.ofTools check fun tools => .equipped { request, settings, tools }, gs)

/-- What a command line comes to. -/
def planOf (host : Host) (line : CommandLine) (fs : FileSystem) : Plan × FileSystem :=
  if line.completions.isSome then (.answered, fs)
  else
    match Settings.load fs host.cwd ⟨"."⟩ host.environment with
    | .error e => (.unconfigured (.loading e), fs)
    | .ok settings =>
      if line.printConfig then (.answered, fs)
      else
        match line.analyzer.elim settings.defaultKind .ok with
        | .ok kind => host.planWith line settings kind fs
        | .error e => (.unconfigured (.configuration e), fs)

/-- What arguments come to. -/
def plan (host : Host) (arguments : List String) (fs : FileSystem) : Plan × FileSystem :=
  match CommandLine.read arguments with
  | .ok line => host.planOf line fs
  | .error (.misuse e) => (.misused e, fs)
  | .error _ => (.answered, fs)

/-! ## What the program does -/

/-- An inventory is complete if it has the tools of a run. -/
theorem isComplete_eq (check : Inventory) : check.isComplete = check.toolchain.isOk := by
  obtain ⟨⟨_, _, analyzer⟩, ⟨_, _, exporter⟩⟩ := check
  cases analyzer <;> cases exporter <;> rfl

theorem explains_carryOutWith (host : Host) (terminal : Bool) (line : CommandLine)
    (settings : Settings) (kind : Analyzer) (fs : FileSystem) :
    Plan.Explains host (host.planWith line settings kind fs)
      (host.carryOutWith terminal line settings kind fs) := by
  unfold planWith carryOutWith
  rcases hinventory : host.inventoryOf settings kind fs with ⟨check, gs⟩
  have hcomplete := isComplete_eq check
  unfold Plan.ofTools
  dsimp only
  split
  · cases htools : check.toolchain with
    | ok tools =>
      rw [htools] at hcomplete
      exact ⟨rfl, congrArg Except.ok hcomplete⟩
    | error e =>
      rw [htools] at hcomplete
      exact ⟨rfl, congrArg Except.ok hcomplete⟩
  · cases hrequest : host.requestOf fs line settings kind with
    | error e => exact ⟨rfl, rfl⟩
    | ok request =>
      cases htools : check.toolchain with
      | ok tools => exact ⟨rfl, rfl⟩
      | error e =>
        rw [htools] at hcomplete
        exact ⟨rfl, congrArg Except.ok hcomplete⟩

theorem explains_carryOut (host : Host) (terminal : Bool) (line : CommandLine) (fs : FileSystem) :
    Plan.Explains host (host.planOf line fs) (host.carryOut terminal line fs) := by
  unfold planOf carryOut
  cases line.completions with
  | some shell => exact ⟨rfl, rfl⟩
  | none =>
    rw [if_neg (by decide)]
    dsimp only
    cases Settings.load fs host.cwd ⟨"."⟩ host.environment with
    | error e => exact ⟨rfl, rfl⟩
    | ok settings =>
      dsimp only
      split
      · exact ⟨rfl, rfl⟩
      · cases line.analyzer with
        | some kind => exact explains_carryOutWith host terminal line settings kind fs
        | none =>
          dsimp only [Option.elim]
          cases settings.defaultKind with
          | ok kind => exact explains_carryOutWith host terminal line settings kind fs
          | error e => exact ⟨rfl, rfl⟩

/-- The program ends, and leaves what it leaves, as the plan has it. -/
theorem program_of_plan (terminal : Bool) (arguments : List String) (fs : FileSystem) :
    (host.program terminal arguments fs).files =
        (host.plan arguments fs).1.files host (host.plan arguments fs).2 ∧
      (host.program terminal arguments fs).exit =
        exitCode (((host.plan arguments fs).1.outcome host
          (host.plan arguments fs).2).toOption.getD false) := by
  unfold program plan
  cases CommandLine.read arguments with
  | error halt => cases halt <;> exact ⟨rfl, rfl⟩
  | ok line =>
    obtain ⟨hfiles, houtcome⟩ := explains_carryOut host terminal line fs
    exact ⟨hfiles, congrArg (fun r => exitCode (r.toOption.getD false)) houtcome⟩

end Host

/-! ## Asking tools -/

namespace Effect

/-- Whatever comes of it, nothing happens to the file system. -/
def IsQuiet (act : Effect ε α) : Prop := ∀ fs, (act fs).2 = fs

namespace IsQuiet

variable {β ε' : Type} {act : Effect ε α}

theorem bind {k : α → Effect ε β} (h : IsQuiet act) (hk : ∀ a, IsQuiet (k a)) :
    IsQuiet (act >>= k) := by
  intro fs
  have hact := h fs
  rw [bind_apply]
  rcases hrun : act fs with ⟨e | a, gs⟩ <;> rw [hrun] at hact
  · exact hact
  · exact (hk a gs).trans hact

theorem mapError (h : IsQuiet act) (f : ε → ε') : IsQuiet (act.mapError f) := by
  intro fs
  have hact := h fs
  unfold Effect.mapError
  rcases hrun : act fs with ⟨e | a, gs⟩ <;> rw [hrun] at hact <;> exact hact

theorem outcome (h : IsQuiet act) : IsQuiet (act.outcome : Effect ε' (Except ε α)) := h

end IsQuiet

end Effect

namespace Host

/-- Programs that are asked for their version or their help write nothing. -/
def AnswersQuietly (host : Host) : Prop :=
  ∀ launch fs allowance, launch.arguments = ["--version"] ∨ launch.arguments = ["--help"] →
    (host.behaviour launch fs allowance).files = fs

theorem isQuiet_query (hquiet : host.AnswersQuietly) {flag : String}
    (hflag : flag = "--version" ∨ flag = "--help") (tool : Tool) (limit : Nat) :
    (host.query tool flag limit).IsQuiet := by
  unfold query
  refine Effect.IsQuiet.bind (Effect.IsQuiet.mapError (fun fs => ?_) _) fun out => ?_
  · rcases host.run_snd tool.name ⟨tool.path, [flag], none⟩ none (some limit) fs with hsame |
      ⟨launch, allowance, -, harguments, hrun⟩
    · exact hsame
    · rw [hrun]
      refine hquiet launch fs allowance ?_
      rw [harguments]
      rcases hflag with rfl | rfl
      · exact Or.inl rfl
      · exact Or.inr rfl
  · intro fs
    split <;> rfl

theorem isQuiet_probe (hquiet : host.AnswersQuietly) (tool : Tool) (limit : Nat) :
    (host.probe tool limit).IsQuiet := by
  have hversion := (isQuiet_query hquiet (Or.inl rfl) tool limit)
  have hhelp := (isQuiet_query hquiet (Or.inr rfl) tool limit)
  unfold probe
  cases tool.role with
  | analyzer kind =>
    exact (hversion.mapError _).bind fun version fs => rfl
  | exporter =>
    refine hversion.outcome.bind fun answer => ?_
    cases answer with
    | ok version => exact fun fs => rfl
    | error e => exact (hhelp.mapError _).bind fun _ fs => rfl

theorem isQuiet_inspectTool (hquiet : host.AnswersQuietly) (role : Role) (name : String)
    (limit : Nat) : (host.inspectTool role name limit).IsQuiet := by
  unfold inspectTool
  refine Effect.IsQuiet.bind (fun fs => rfl) fun found => ?_
  cases found with
  | error e => exact fun fs => rfl
  | ok tool =>
    refine (isQuiet_probe hquiet tool limit).outcome.bind fun answer => ?_
    cases answer with
    | ok version => exact fun fs => rfl
    | error e => exact fun fs => rfl

/-- Asking tools that answer quietly leaves what was there. -/
theorem inventoryOf_snd (hquiet : host.AnswersQuietly) (settings : Settings) (kind : Analyzer)
    (fs : FileSystem) : (host.inventoryOf settings kind fs).2 = fs := by
  have hinventory : (host.takeInventory settings kind).IsQuiet := by
    unfold takeInventory
    refine (isQuiet_inspectTool hquiet _ _ _).bind fun analyzer => ?_
    exact (isQuiet_inspectTool hquiet _ _ _).bind fun exporter fs => rfl
  have htaken := hinventory fs
  unfold inventoryOf
  rcases hrun : host.takeInventory settings kind fs with ⟨e | check, gs⟩
  · nomatch e
  · rw [hrun] at htaken
    exact htaken

/-- Whatever arguments come to, nothing has happened by then. -/
theorem plan_snd (hquiet : host.AnswersQuietly) (arguments : List String) (fs : FileSystem) :
    (host.plan arguments fs).2 = fs := by
  have hwith : ∀ line settings kind, (host.planWith line settings kind fs).2 = fs := by
    intro line settings kind
    have htaken := inventoryOf_snd hquiet settings kind fs
    unfold planWith
    rcases hrun : host.inventoryOf settings kind fs with ⟨check, gs⟩
    rw [hrun] at htaken
    dsimp only at htaken ⊢
    split
    · exact htaken
    · split
      · rfl
      · exact htaken
  unfold plan
  split
  · next line _ =>
    unfold planOf
    split
    · rfl
    split
    · rfl
    split
    · rfl
    split
    · exact hwith line _ _
    · rfl
  · rfl
  · rfl

/-! ## Failures that leave no trace -/

/-- After a failure that leaves no trace, all is as it was: the arguments, the settings or the tools
were at fault, or the run failed before it copied anything that it did not take away again. -/
theorem untouched_of_failure (terminal : Bool) (hw : fs.WellFormed) (hquiet : host.AnswersQuietly)
    (hfree : ∀ p, (host.plan arguments fs).1 = .equipped p → p.AbandonsFreely host fs)
    (hfails : (host.plan arguments fs).1.failsEarly host fs = true) :
    (host.program terminal arguments fs).exit = 1 ∧
      Same fs (host.program terminal arguments fs).files := by
  obtain ⟨hfiles, hexit⟩ := host.program_of_plan terminal arguments fs
  rw [plan_snd hquiet] at hfiles hexit
  rw [hfiles, hexit]
  cases hplan : (host.plan arguments fs).1 with
  | answered =>
    rw [hplan] at hfails
    cases hfails
  | misused e => exact ⟨rfl, Same.refl fs⟩
  | unconfigured e => exact ⟨rfl, Same.refl fs⟩
  | unequipped e => exact ⟨rfl, Same.refl fs⟩
  | equipped p =>
    rw [hplan] at hfails
    dsimp only [Plan.failsEarly, Plan.outcome, Plan.files] at hfails ⊢
    split at hfails
    · next c hout =>
      rw [Bool.or_eq_true, Option.isNone_iff_eq_none] at hfails
      rw [hout]
      exact ⟨rfl, Job.same_of_uncopied hw (hfree p hplan) hout hfails⟩
    · cases hfails

/-! ## A copy that cannot be completed -/

/-- Surroundings in which every program succeeds and does nothing. -/
def stillHost : Host :=
  ⟨["work"], [("PATH", "/bin")], fun _ => "x", quietBehaviour⟩

/-- The notes with a device after them, which cannot be copied. -/
def notesAndDevice : FileSystem :=
  Job.notesWith [(["bin", "verus-analyzer"], .file 3 0o755 machineCodeMark),
    (["bin", "scip"], .file 4 0o755 machineCodeMark), (["work", "proj", "zero"], .device .zero)] 5

/-- A copy that fails after a part of it was made is taken away with its directory. -/
theorem half_copy_untouched :
    (stillHost.plan ["/work/proj"] notesAndDevice).1.failsEarly stillHost notesAndDevice = true ∧
    (stillHost.program false ["/work/proj"] notesAndDevice).exit = 1 ∧
    Same notesAndDevice (stillHost.program false ["/work/proj"] notesAndDevice).files := by
  have hfails : (stillHost.plan ["/work/proj"] notesAndDevice).1.failsEarly stillHost
      notesAndDevice = true := by decide +kernel
  have hw : notesAndDevice.WellFormed := by decide
  have hnames : stillHost.DrawsNames := by
    intro draw
    refine ⟨'x', by decide, ?_⟩
    change "x".toList.getLast? = some 'x'
    decide
  exact ⟨hfails, untouched_of_failure false hw (fun _ _ _ _ => rfl)
    (fun p _ => Job.abandonsFreely_of_drawsNames hw hnames) hfails⟩

end Host

end CodeIndex

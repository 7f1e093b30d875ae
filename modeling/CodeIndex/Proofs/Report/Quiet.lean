import CodeIndex.Proofs.Output
import CodeIndex.Proofs.Path.Names
import Mathlib.Data.List.Flatten

/-!
# What a quiet console leaves out

How much is shown, and in which colours, has no bearing on what is done. Every line is written for a
reason, and a quiet console leaves out the lines whose reason does not matter: progress, headings,
and what is said of tools that are there. Warnings, failures, tools that are missing and where the
results of a run are do matter.

* `Reason`, `Remark` : a line together with the reason for which it is written;
* `Remark.essential` : the remarks that matter;
* `Console.hushed` : the same console, made quiet, which leaves the essential remarks;
* `Host.remarks?` : all that is said when a command line comes to the tools;
* `Host.presentation_only_hides` : two runs of the program that differ in their presentation.
-/

namespace CodeIndex

variable {host : Host} {fs : FileSystem} {line : CommandLine} {settings : Settings}
  {kind : Analyzer} {console : Console}

/-! ## Reasons -/

/-- Why a line is written: for an event of a run, for what is known about a tool, to say where the
index and the export of a run are, as an answer for programs, or to make the rest easier to read. -/
inductive Reason
  | event (event : Event)
  | finding (finding : ToolFinding)
  | result
  | answer
  | context

namespace Reason

/-- Whether a line with this reason is shown on every console. -/
def matters : Reason → Bool
  | .event (.warning _) | .event (.failed _ _) | .result | .answer => true
  | .event (.started _) | .event (.info _) | .event (.finished _ _) | .context => false
  | .finding s => !s.isUsable

end Reason

/-- A line and the reason for which it is written. -/
structure Remark where
  reason : Reason
  line : Line

namespace Remark

/-- Lines that are all written for one reason. -/
def all (reason : Reason) (lines : List Line) : List Remark := lines.map fun l => ⟨reason, l⟩

/-- What is written. -/
def lines (remarks : List Remark) : List Line := remarks.map Remark.line

/-- The remarks that matter. -/
def essential (remarks : List Remark) : List Remark := remarks.filter fun r => r.reason.matters

theorem lines_all (reason : Reason) (ls : List Line) : lines (all reason ls) = ls := by
  unfold lines all
  rw [List.map_map]
  exact List.map_id ls

theorem lines_append (rs more : List Remark) : lines (rs ++ more) = lines rs ++ lines more :=
  List.map_append

theorem essential_append (rs more : List Remark) :
    essential (rs ++ more) = essential rs ++ essential more :=
  List.filter_append rs more

theorem essential_of_matters {reason : Reason} (h : reason.matters = true) (ls : List Line) :
    essential (all reason ls) = all reason ls := by
  apply List.filter_eq_self.mpr
  intro r hr
  obtain ⟨l, -, rfl⟩ := List.mem_map.mp hr
  exact h

theorem essential_of_not_matters {reason : Reason} (h : reason.matters = false)
    (ls : List Line) : essential (all reason ls) = [] := by
  apply List.filter_eq_nil_iff.mpr
  intro r hr
  obtain ⟨l, -, rfl⟩ := List.mem_map.mp hr
  rw [h]
  decide

end Remark

/-! ## Consoles -/

namespace Console

open Remark

/-- The same console, made quiet. -/
def hushed (c : Console) : Console := { c with quiet := true }

theorem note_hushed (text : String) : console.hushed.note text = [] := rfl

theorem heading_hushed (title : String) : console.hushed.heading title = [] := rfl

/-- What is said about the events of a run. -/
def remarksOfAll (c : Console) (events : List Event) : List Remark :=
  events.flatMap fun event => all (.event event) (c.linesOf event)

/-- What is said about a tool. -/
def remarksOfFinding (c : Console) (s : ToolFinding) : List Remark :=
  all (.finding s) (c.linesOfFinding s)

/-- What is said about both tools. -/
def remarksOfInventory (c : Console) (check : Inventory) : List Remark :=
  c.remarksOfFinding check.analyzer ++ c.remarksOfFinding check.exporter ++
    all .context (if check.isComplete then c.note "All required tools are available" else [])

/-- What is said at the end of a successful run. The lines about the index and the export are there
for the results themselves. -/
def remarksOfAccount (c : Console) (r : Account) : List Remark :=
  all .context (c.heading "Summary") ++
    all .result (if r.copyKept then c.line (c.checkMark ++ " SCIP index: " ++ r.index.text)
      else []) ++
    all .result (if r.outputKept then
      c.line (c.checkMark ++ " JSON export: " ++ r.jsonOutput.text ++ " (" ++ Size.text r.size ++
        ")")
    else
      c.line (c.warningMark ++ " JSON export (" ++ Size.text r.size ++
        ") was removed with the temporary workspace; use --keep-copy or -j <FILE> to keep it")) ++
    all .context (if r.copyKept then c.note ("Project copy: " ++ r.copy.text) else []) ++
    all .context (r.warnings.flatMap fun w => c.note (c.warningMark ++ " " ++ w))

/-! ### The remarks have all the lines -/

theorem lines_remarksOfAll (events : List Event) :
    lines (console.remarksOfAll events) = console.linesOfAll events := by
  induction events with
  | nil => rfl
  | cons event events ih =>
    have hsplit : console.remarksOfAll (event :: events) =
        all (.event event) (console.linesOf event) ++ console.remarksOfAll events := rfl
    rw [hsplit, lines_append, lines_all, ih]
    rfl

theorem lines_remarksOfInventory (check : Inventory) :
    lines (console.remarksOfInventory check) = console.linesOfInventory check := by
  unfold remarksOfInventory remarksOfFinding
  simp only [lines_append, lines_all]
  rfl

theorem lines_remarksOfAccount (r : Account) :
    lines (console.remarksOfAccount r) = console.linesOfAccount r := by
  unfold remarksOfAccount
  simp only [lines_append, lines_all]
  rfl

/-! ### Made quiet, a console leaves what matters -/

/-- Each event is shown by a quiet console as by the other, or not at all. -/
theorem remarks_hushed_event (event : Event) :
    all (.event event) (console.hushed.linesOf event) =
      essential (all (.event event) (console.linesOf event)) := by
  cases event with
  | started stage => exact (essential_of_not_matters rfl _).symm
  | info text => exact (essential_of_not_matters rfl _).symm
  | warning text => exact (essential_of_matters rfl _).symm
  | finished stage detail => exact (essential_of_not_matters rfl _).symm
  | failed stage message => exact (essential_of_matters rfl _).symm

theorem remarksOfAll_hushed (events : List Event) :
    console.hushed.remarksOfAll events = essential (console.remarksOfAll events) := by
  induction events with
  | nil => rfl
  | cons event events ih =>
    have hsplit : ∀ c : Console, c.remarksOfAll (event :: events) =
        all (.event event) (c.linesOf event) ++ c.remarksOfAll events := fun _ => rfl
    rw [hsplit, hsplit, essential_append, remarks_hushed_event, ih]

theorem remarksOfFinding_hushed (s : ToolFinding) :
    console.hushed.remarksOfFinding s = essential (console.remarksOfFinding s) := by
  unfold remarksOfFinding linesOfFinding
  cases houtcome : s.outcome with
  | ok found =>
    have hmatters : (Reason.finding s).matters = false := by
      simp [Reason.matters, ToolFinding.isUsable, houtcome, Except.isOk, Except.toBool]
    rw [essential_of_not_matters hmatters]
    rfl
  | error e =>
    have hmatters : (Reason.finding s).matters = true := by
      simp [Reason.matters, ToolFinding.isUsable, houtcome, Except.isOk, Except.toBool]
    rw [essential_of_matters hmatters]
    rfl

theorem remarksOfInventory_hushed (check : Inventory) :
    console.hushed.remarksOfInventory check = essential (console.remarksOfInventory check) := by
  unfold remarksOfInventory
  rw [essential_append, essential_append, remarksOfFinding_hushed, remarksOfFinding_hushed,
    essential_of_not_matters rfl, note_hushed, ite_self]
  rfl

theorem remarksOfAccount_hushed (r : Account) :
    console.hushed.remarksOfAccount r = essential (console.remarksOfAccount r) := by
  have hwarnings : (r.warnings.flatMap fun w =>
      console.hushed.note (console.hushed.warningMark ++ " " ++ w)) = [] :=
    List.flatMap_eq_nil_iff.mpr fun w _ => rfl
  have hcontext : ∀ ls, essential (all .context ls) = [] := essential_of_not_matters rfl
  unfold remarksOfAccount
  simp only [essential_append, hcontext]
  rw [hwarnings, heading_hushed, note_hushed, ite_self, essential_of_matters rfl,
    essential_of_matters rfl]
  rfl

end Console

/-! ## Lines of a text -/

/-- The lines of a text. The last one is empty if the text ends with a line break. -/
def textLines (text : String) : List (List Char) := Text.splitOn '\n' text.toList

/-- What is written to a stream has the lines of all that is written to it. -/
theorem textLines_writtenTo (stream : Stream) (ls : List Line) :
    textLines (writtenTo stream ls) =
      (ls.filter (·.stream = stream)).flatMap (fun l => textLines l.text) ++ [[]] := by
  unfold writtenTo
  induction ls.filter (·.stream = stream) with
  | nil => rfl
  | cons l rest ih =>
    have hbreak : (l.text ++ "\n" ++ String.join (rest.map fun l => l.text ++ "\n")).toList =
        l.text.toList ++ '\n' :: (String.join (rest.map fun l => l.text ++ "\n")).toList := by
      simp
    rw [List.map_cons, String.join_cons, textLines, hbreak, Text.splitOn_append,
      List.flatMap_cons, List.append_assoc, ← ih]
    rfl

/-- Leaving out some of what is written leaves out whole lines. -/
theorem textLines_sublist {ls more : List Line} (h : ls.Sublist more) (stream : Stream) :
    (textLines (writtenTo stream ls)).Sublist (textLines (writtenTo stream more)) := by
  rw [textLines_writtenTo, textLines_writtenTo]
  exact ((h.filter _).flatMap _).append (List.Sublist.refl _)

/-! ## What is said when a command line comes to the tools -/

/-- The console of a command line whose output does not go to a terminal. -/
def CommandLine.plainConsole (line : CommandLine) : Console := ⟨line.quiet, false, line.json⟩

/-- The same command line with another presentation. -/
def CommandLine.presented (line : CommandLine) (quiet noColor : Bool) : CommandLine :=
  { line with quiet, noColor }

namespace Host

open Remark

/-- What is said after a run. -/
def epilogueRemarks (console : Console) (json : Bool) (outcome : Except StageError Account) :
    List Remark :=
  if json then all .answer [⟨.output, (outcomeJson outcome).render⟩]
  else
    match outcome with
    | .ok account => console.remarksOfAccount account
    | .error _ => []

/-- What is said about a run. -/
def remarksOfRun (host : Host) (console : Console) (json : Bool) (p : Job) (fs : FileSystem) :
    List Remark :=
  let r := p.run host fs
  all .context (preface console p.request p.tools) ++ console.remarksOfAll r.events ++
    epilogueRemarks console json r.outcome

/-- What is said when tools are checked. -/
def checkRemarks (console : Console) (json : Bool) (check : Inventory) : List Remark :=
  if json then all .answer [⟨.output, check.toJson.render⟩] else console.remarksOfInventory check

/-- The remarks have all the lines of a run. -/
theorem written_runJob (json : Bool) (request : Request) (tools : Toolchain) :
    (host.runJob console json request settings tools fs).written =
      { lines := lines (host.remarksOfRun console json { request, settings, tools } fs) } := by
  have hepilogue : ∀ outcome, lines (epilogueRemarks console json outcome) =
      epilogue console json outcome := by
    intro outcome
    unfold epilogueRemarks epilogue
    split
    · exact lines_all _ _
    · cases outcome with
      | ok account => exact Console.lines_remarksOfAccount account
      | error e => rfl
  unfold remarksOfRun runJob
  dsimp only
  rw [lines_append, lines_append, lines_all, Console.lines_remarksOfAll, hepilogue]

/-- The remarks have all the lines of a check. -/
theorem written_reportInventory (json : Bool) (check : Inventory) :
    (reportInventory console json check fs).written =
      { lines := lines (checkRemarks console json check) } := by
  unfold checkRemarks reportInventory
  split
  · rw [lines_all]
  · rw [Console.lines_remarksOfInventory]

/-- A quiet run leaves the remarks that matter. -/
theorem remarksOfRun_hushed (json : Bool) (p : Job) :
    host.remarksOfRun console.hushed json p fs =
      essential (host.remarksOfRun console json p fs) := by
  have hpreface : essential (all .context (preface console p.request p.tools)) = [] :=
    essential_of_not_matters rfl _
  have hepilogue : ∀ outcome, epilogueRemarks console.hushed json outcome =
      essential (epilogueRemarks console json outcome) := by
    intro outcome
    unfold epilogueRemarks
    split
    · exact (essential_of_matters rfl _).symm
    · cases outcome with
      | ok account => exact Console.remarksOfAccount_hushed account
      | error e => rfl
  unfold remarksOfRun
  dsimp only
  rw [essential_append, essential_append, hpreface, Console.remarksOfAll_hushed, hepilogue]
  rfl

theorem checkRemarks_hushed (json : Bool) (check : Inventory) :
    checkRemarks console.hushed json check = essential (checkRemarks console json check) := by
  unfold checkRemarks
  split
  · exact (essential_of_matters rfl _).symm
  · exact Console.remarksOfInventory_hushed check

/-- What is said when the tools have been asked, or what comes of a command line that asks for no
project that can be indexed. -/
def remarksWith (host : Host) (console : Console) (line : CommandLine) (settings : Settings)
    (kind : Analyzer) (fs : FileSystem) : Except CommandRun (List Remark) :=
  let (check, gs) := host.inventoryOf settings kind fs
  if line.checkTools then
    .ok (checkRemarks console line.json check)
  else
    match host.requestOf fs line settings kind with
    | .error e => .error ⟨.error (.configuration e), {}, fs⟩
    | .ok request =>
      match check.toolchain with
      | .error _ => .ok (checkRemarks console false check)
      | .ok tools =>
        .ok (host.remarksOfRun console line.json { request, settings, tools } gs)

/-- The settings and the analyzer with which a command line comes to the tools, or what comes of it
before that. -/
def footing (host : Host) (line : CommandLine) (fs : FileSystem) :
    Except CommandRun (Settings × Analyzer) :=
  match line.completions with
  | some shell => .error ⟨.ok true, { document := CommandLine.completionScript shell }, fs⟩
  | none =>
    match Settings.load fs host.cwd ⟨"."⟩ host.environment with
    | .error e => .error ⟨.error (.loading e), {}, fs⟩
    | .ok settings =>
      if line.printConfig then .error ⟨.ok true, { document := settings.document }, fs⟩
      else
        match line.analyzer.elim settings.defaultKind .ok with
        | .error e => .error ⟨.error (.configuration e), {}, fs⟩
        | .ok kind => .ok (settings, kind)

/-- All that is said where the output does not go to a terminal, or what comes of a command line that
does not come to check the tools or to run. -/
def remarks (host : Host) (line : CommandLine) (fs : FileSystem) :
    Except CommandRun (List Remark) :=
  (host.footing line fs).bind fun footing =>
    host.remarksWith line.plainConsole line footing.1 footing.2 fs

/-- A command line is carried out with its footing. -/
theorem carryOut_eq (host : Host) (terminal : Bool) (line : CommandLine) (fs : FileSystem) :
    host.carryOut terminal line fs =
      match host.footing line fs with
      | .error run => run
      | .ok (settings, kind) => host.carryOutWith terminal line settings kind fs := by
  unfold carryOut footing
  cases line.completions with
  | some shell => rfl
  | none =>
    dsimp only
    cases Settings.load fs host.cwd ⟨"."⟩ host.environment with
    | error e => rfl
    | ok settings =>
      dsimp only
      split
      · rfl
      · cases line.analyzer with
        | some kind => rfl
        | none =>
          dsimp only [Option.elim]
          cases settings.defaultKind <;> rfl

/-- What is said is all that is written, or else something else comes of a command line. -/
def Says (r : CommandRun) : Except CommandRun (List Remark) → Prop
  | .error run => r = run
  | .ok said => r.written = { lines := lines said } ∧ r.outcome.isOk = true

theorem says_carryOutWith (host : Host) (line : CommandLine) (settings : Settings)
    (kind : Analyzer) (fs : FileSystem) :
    Says (host.carryOutWith false line settings kind fs)
      (host.remarksWith line.plainConsole line settings kind fs) := by
  unfold carryOutWith remarksWith
  rw [Bool.and_false]
  rcases host.inventoryOf settings kind fs with ⟨check, gs⟩
  dsimp only
  split
  · exact ⟨written_reportInventory _ _, rfl⟩
  · cases host.requestOf fs line settings kind with
    | error e => rfl
    | ok request =>
      cases check.toolchain with
      | error e => exact ⟨written_reportInventory _ _, rfl⟩
      | ok tools => exact ⟨written_runJob _ _ _, rfl⟩

/-- Where the output does not go to a terminal, what is said is all that is written. -/
theorem says_carryOut (host : Host) (line : CommandLine) (fs : FileSystem) :
    Says (host.carryOut false line fs) (host.remarks line fs) := by
  rw [carryOut_eq]
  unfold remarks
  cases host.footing line fs with
  | error run => rfl
  | ok footing => exact host.says_carryOutWith line footing.1 footing.2 fs

/-! ## Two presentations -/

/-- With a quiet console, a command line leaves the remarks that matter. -/
theorem remarksWith_hushed :
    host.remarksWith console.hushed line settings kind fs =
      (host.remarksWith console line settings kind fs).map essential := by
  unfold remarksWith
  rcases host.inventoryOf settings kind fs with ⟨check, gs⟩
  dsimp only
  split
  · exact congrArg Except.ok (checkRemarks_hushed _ _)
  · cases host.requestOf fs line settings kind with
    | error e => rfl
    | ok request =>
      cases check.toolchain with
      | error e => exact congrArg Except.ok (checkRemarks_hushed _ _)
      | ok tools => exact congrArg Except.ok (remarksOfRun_hushed _ _)

/-- What is said depends on the presentation only by how quiet it is. -/
theorem remarks_presented (quiet noColor : Bool) :
    host.remarks (line.presented quiet noColor) fs =
      (host.footing line fs).bind fun footing =>
        host.remarksWith { line.plainConsole with quiet } line footing.1 footing.2 fs := rfl

theorem remarks_presented_quiet (noColor : Bool) :
    host.remarks (line.presented true noColor) fs = (host.remarks line fs).map essential := by
  rw [remarks_presented]
  unfold remarks
  cases host.footing line fs with
  | error run => rfl
  | ok footing => exact remarksWith_hushed

/-- Another presentation changes neither the outcome nor the files. -/
theorem carryOut_presented (terminal quiet noColor : Bool) :
    (host.carryOut terminal (line.presented quiet noColor) fs).outcome =
        (host.carryOut terminal line fs).outcome ∧
      (host.carryOut terminal (line.presented quiet noColor) fs).files =
        (host.carryOut terminal line fs).files := by
  have hplan : host.planOf (line.presented quiet noColor) fs = host.planOf line fs := rfl
  obtain ⟨hfiles, houtcome⟩ := explains_carryOut host terminal line fs
  obtain ⟨hfiles', houtcome'⟩ := explains_carryOut host terminal (line.presented quiet noColor) fs
  rw [hfiles, houtcome, hfiles', houtcome', hplan]
  exact ⟨rfl, rfl⟩

/-- Where the output does not go to a terminal, colours make no difference. -/
theorem carryOut_recolored (noColor : Bool) :
    host.carryOut false (line.presented line.quiet noColor) fs = host.carryOut false line fs := by
  have hlines := host.says_carryOut line fs
  have hlines' := host.says_carryOut (line.presented line.quiet noColor) fs
  rw [remarks_presented] at hlines'
  change Says _ (host.remarks line fs) at hlines'
  obtain ⟨houtcome, hfiles⟩ := @carryOut_presented host fs line false line.quiet noColor
  cases hremarks : host.remarks line fs with
  | error run =>
    rw [hremarks] at hlines hlines'
    exact Eq.trans hlines' (Eq.symm hlines)
  | ok said =>
    rw [hremarks] at hlines hlines'
    rcases hrun : host.carryOut false line fs with ⟨outcome, written, files⟩
    rcases hrun' : host.carryOut false (line.presented line.quiet noColor) fs with
      ⟨outcome', written', files'⟩
    rw [hrun] at hlines houtcome hfiles
    rw [hrun'] at hlines' houtcome hfiles
    rw [CommandRun.mk.injEq]
    exact ⟨houtcome, Eq.trans hlines'.1 (Eq.symm hlines.1), hfiles⟩

/-- What is written for programs is the same in every presentation. -/
theorem output_presented (hjson : line.json = true) (quiet noColor : Bool) :
    (host.carryOut false (line.presented quiet noColor) fs).written.on .output =
      (host.carryOut false line fs).written.on .output := by
  have hfooting : host.footing (line.presented quiet noColor) fs = host.footing line fs := rfl
  have hjson' : (line.presented quiet noColor).json = true := hjson
  rw [carryOut_eq, carryOut_eq, hfooting]
  cases host.footing line fs with
  | error run => rfl
  | ok footing =>
    dsimp only
    cases hcheck : line.checkTools with
    | false =>
      have hcheck' : (line.presented quiet noColor).checkTools = false := hcheck
      rw [output_carryOutWith false hcheck hjson, output_carryOutWith false hcheck' hjson']
      rfl
    | true =>
      have hcheck' : (line.presented quiet noColor).checkTools = true := hcheck
      unfold carryOutWith
      rw [hcheck, hcheck', hjson, hjson']
      rfl

end Host

/-! ## Two runs of the program -/

/-- What the program has written to a stream. -/
def ProgramRun.on (r : ProgramRun) : Stream → String
  | .output => r.output
  | .diagnostic => r.diagnostics

/-- Of two runs of the program, the first writes all remarks and the second those that matter, on
each stream and in the same order. So the second leaves out whole lines of the first. -/
structure Hides (said : List Remark) (loud quiet : ProgramRun) : Prop where
  all : ∀ stream, loud.on stream = writtenTo stream (Remark.lines said)
  essential : ∀ stream, quiet.on stream = writtenTo stream (Remark.lines (Remark.essential said))
  whole : ∀ stream, (textLines (quiet.on stream)).Sublist (textLines (loud.on stream))

namespace Host

/-- The program writes what is said. -/
theorem program_on {arguments : List String} {said : List Remark}
    (hread : CommandLine.read arguments = .ok line) (hsaid : host.remarks line fs = .ok said)
    (stream : Stream) :
    (host.program false arguments fs).on stream = writtenTo stream (Remark.lines said) := by
  have hcarried := host.says_carryOut line fs
  rw [hsaid] at hcarried
  obtain ⟨hwritten, hok⟩ := hcarried
  unfold program
  rw [hread]
  dsimp only
  rw [hwritten]
  cases houtcome : (host.carryOut false line fs).outcome with
  | error e =>
    rw [houtcome] at hok
    cases hok
  | ok success =>
    cases stream with
    | output => exact String.empty_append
    | diagnostic => exact String.append_empty

/-- Two runs of the program that differ in their presentation do the same, and where the output does
not go to a terminal the quiet one only leaves out whole lines that do not matter. -/
theorem presentation_only_hides (host : Host) (fs : FileSystem)
    {arguments arguments' : List String} {line : CommandLine} {quiet noColor : Bool}
    (hread : CommandLine.read arguments = .ok line)
    (hread' : CommandLine.read arguments' = .ok (line.presented quiet noColor)) :
    let r := host.program false arguments fs
    let r' := host.program false arguments' fs
    r'.exit = r.exit ∧ r'.files = r.files ∧ (line.json = true → r'.output = r.output) ∧
      (line.quiet = quiet → r' = r) ∧
      (quiet = true →
        (∀ said, host.remarks line fs = .ok said → Hides said r r') ∧
        (∀ run, host.remarks line fs = .error run → r' = r)) := by
  have hsame : ∀ {a a' : List String} {l l' : CommandLine}, CommandLine.read a = .ok l →
      CommandLine.read a' = .ok l' → host.carryOut false l' fs = host.carryOut false l fs →
      host.program false a' fs = host.program false a fs := by
    intro a a' l l' ha ha' hcarried
    unfold program
    rw [ha, ha']
    dsimp only
    rw [hcarried]
  obtain ⟨houtcome, hfiles⟩ := @carryOut_presented host fs line false quiet noColor
  refine ⟨?_, ?_, fun hjson => ?_, fun hquiet => ?_, fun hquiet => ⟨fun said hsaid => ?_,
    fun run hrun => ?_⟩⟩
  · rw [(host.program_of_read false hread fs).2.1, (host.program_of_read false hread' fs).2.1,
      houtcome]
  · unfold program
    rw [hread, hread']
    exact hfiles
  · rw [(host.program_of_read false hread fs).1, (host.program_of_read false hread' fs).1]
    exact output_presented hjson quiet noColor
  · subst hquiet
    exact hsame hread hread' (carryOut_recolored noColor)
  · subst hquiet
    have hsaid' : host.remarks (line.presented true noColor) fs =
        .ok (Remark.essential said) := by
      rw [remarks_presented_quiet, hsaid]
      rfl
    refine ⟨program_on hread hsaid, program_on hread' hsaid', fun stream => ?_⟩
    rw [program_on hread hsaid, program_on hread' hsaid']
    exact textLines_sublist (List.filter_sublist.map Remark.line) stream
  · subst hquiet
    apply hsame hread hread'
    have hrun' : host.remarks (line.presented true noColor) fs = .error run := by
      rw [remarks_presented_quiet, hrun]
      rfl
    have hlines := host.says_carryOut line fs
    have hlines' := host.says_carryOut (line.presented true noColor) fs
    rw [hrun] at hlines
    rw [hrun'] at hlines'
    exact Eq.trans hlines' (Eq.symm hlines)

/-- What is asked for: a run whose results are left. -/
def keptNotes : CommandLine := { project := some ⟨"/work/proj"⟩, keepCopy := true }

/-- A run whose results are left says more when it is not quiet. -/
theorem quiet_run_hides :
    (equippedRun ["--quiet", "/work/proj", "--no-color", "--keep-copy"]).exit = 0 ∧
      ∃ said, ((Remark.essential said).length, said.length) = (2, 22) ∧
        Hides said (equippedRun ["/work/proj", "--keep-copy"])
          (equippedRun ["--quiet", "/work/proj", "--no-color", "--keep-copy"]) := by
  have hread : CommandLine.read ["/work/proj", "--keep-copy"] = .ok keptNotes := by decide +kernel
  have hread' : CommandLine.read ["--quiet", "/work/proj", "--no-color", "--keep-copy"] =
      .ok (keptNotes.presented true true) := by decide +kernel
  have hexit : (equippedRun ["--quiet", "/work/proj", "--no-color", "--keep-copy"]).exit = 0 := by
    decide +kernel
  have hcounts : ((equippedHost.remarks keptNotes equippedNotes).toOption.map fun said =>
      ((Remark.essential said).length, said.length)) = some (2, 22) := by decide +kernel
  obtain ⟨said, hsaid, hlengths⟩ := Option.map_eq_some_iff.mp hcounts
  have hremarks : equippedHost.remarks keptNotes equippedNotes = .ok said := by
    cases hcase : equippedHost.remarks keptNotes equippedNotes with
    | error run =>
      rw [hcase] at hsaid
      cases hsaid
    | ok found =>
      rw [hcase] at hsaid
      exact congrArg Except.ok (Option.some.inj hsaid)
  obtain ⟨-, -, -, -, hhides⟩ :=
    presentation_only_hides equippedHost equippedNotes hread hread'
  exact ⟨hexit, said, hlengths, (hhides rfl).1 said hremarks⟩

end Host

end CodeIndex

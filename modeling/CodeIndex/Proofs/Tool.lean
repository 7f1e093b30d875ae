import CodeIndex.Proofs.Export.Outcome
import CodeIndex.Proofs.FileSystem.Passing
import CodeIndex.Proofs.Indexing
import CodeIndex.Tool.Inventory

/-!
# The tools that are asked are the tools that run

Tools are asked in the directory of the host, and run in others: the analyzer in the working copy,
the exporter next to the index. A tool that has been found has an absolute path, so all of them
start the same file. What a directory can change is whether a script is started at all: its first
line may name an interpreter that is looked up from there.

* `FileSystem.runnable_place` : which file runs does not depend on the directory;
* `FileSystem.runnable_eq` : nor does whether it runs, and by which interpreters, if all of them have
  absolute paths;
* `FileSystem.machineCode_of_runnable` : the last of the interpreters is machine code;
* `Host.findTool_isAbsolute` : the paths of tools;
* `Host.StartsFile` : the file that a command starts;
* `Host.startsOnly` : what a command starts whose program could be asked;
* `Host.lastQuery` : where and how a tool was asked the question that it answered;
* `Host.probed_tools_run` : the file that was asked is the one that runs.
-/

namespace CodeIndex

open FileSystem

variable {host : Host} {fs gs hs : FileSystem} {path : Path} {place D D' : Place}
  {command : Command} {stdout : Option OpenFile} {depth : Nat}

namespace FileSystem

/-! ## Running files from directories -/

/-- Whether a program and all interpreters on the way to machine code have absolute paths. -/
def namesAbsolute (fs : FileSystem) : (depth : Nat) → Path → Bool
  | 0, _ => true
  | depth + 1, path =>
    path.isAbsolute &&
      match fs.executable [] path with
      | .ok (_, bytes) => (interpreter? bytes).all fun program => fs.namesAbsolute depth ⟨program⟩
      | .error _ => true

/-- An absolute path leads to the same file from everywhere. -/
theorem executable_of_isAbsolute (h : path.isAbsolute = true) (D D' : Place) :
    fs.executable D path = fs.executable D' path := by
  have hlookup : fs.lookup D path true = fs.lookup D' path true := by
    unfold lookup
    rw [origin_of_isAbsolute D h, origin_of_isAbsolute D' h]
  unfold executable stat
  rw [hlookup]

/-- An executable file is a file. -/
theorem get?_of_executable {bytes : List UInt8} (h : fs.executable D path = .ok (place, bytes)) :
    ∃ id mode, fs.get? place = some (.file id mode bytes) := by
  unfold executable at h
  split at h
  · cases h
  · next q e hstat =>
    split at h
    · next id mode own =>
      split at h
      · obtain ⟨rfl, rfl⟩ := Prod.mk.inj (Except.ok.inj h)
        exact ⟨id, mode, get?_of_lookup (stat_eq_ok_iff.mp hstat)⟩
      · cases h
    · cases h

/-- What runs is the file that the path leads to, by itself or by an interpreter that is looked up
from the same directory. -/
theorem runnable_eq_ok {found : Runnable} (h : fs.runnable D (depth + 1) path = .ok found) :
    ∃ bytes, fs.executable D path = .ok (found.place, bytes) ∧
      (machineCodeMark.isPrefixOf bytes = true ∧ found.interpreters = [] ∨
        ∃ program interpreter, interpreter? bytes = some program ∧
          fs.runnable D depth ⟨program⟩ = .ok interpreter ∧
          found.interpreters = interpreter.place :: interpreter.interpreters) := by
  rw [runnable] at h
  obtain ⟨⟨q, bytes⟩, hfile, hrest⟩ := bind_eq_ok_iff.mp h
  dsimp only at hrest
  split at hrest
  · next hcode =>
    obtain rfl := Except.ok.inj hrest
    exact ⟨bytes, hfile, Or.inl ⟨hcode, rfl⟩⟩
  · split at hrest
    · next program hprogram =>
      obtain ⟨interpreter, hinner, hpure⟩ := bind_eq_ok_iff.mp hrest
      obtain rfl := Except.ok.inj hpure
      exact ⟨bytes, hfile, Or.inr ⟨program, interpreter, hprogram, hinner, rfl⟩⟩
    · cases hrest

/-- The last of the interpreters is machine code, and so is a file that needs none. -/
theorem machineCode_of_runnable {found : Runnable} (h : fs.runnable D depth path = .ok found) :
    ∃ q id mode bytes, (found.place :: found.interpreters).getLast? = some q ∧
      fs.get? q = some (.file id mode bytes) ∧ machineCodeMark.isPrefixOf bytes = true := by
  induction depth generalizing path found with
  | zero => cases h
  | succ depth ih =>
    obtain ⟨bytes, hfile, ⟨hcode, hnone⟩ | ⟨program, interpreter, -, hinner, hlist⟩⟩ :=
      runnable_eq_ok h
    · obtain ⟨id, mode, hget⟩ := get?_of_executable hfile
      exact ⟨found.place, id, mode, bytes, by rw [hnone]; rfl, hget, hcode⟩
    · rw [hlist, List.getLast?_cons_cons]
      exact ih hinner

/-- Which file runs does not depend on the directory. -/
theorem runnable_place (habs : path.isAbsolute = true) {found found' : Runnable}
    (h : fs.runnable D depth path = .ok found) (h' : fs.runnable D' depth path = .ok found') :
    found'.place = found.place := by
  cases depth with
  | zero => cases h
  | succ depth =>
    obtain ⟨bytes, hfile, -⟩ := runnable_eq_ok h
    obtain ⟨bytes', hfile', -⟩ := runnable_eq_ok h'
    rw [executable_of_isAbsolute habs D' D, hfile] at hfile'
    exact (Prod.mk.inj (Except.ok.inj hfile')).1.symm

/-- Whether it runs, and by which interpreters, does not depend on the directory either, where all
paths are absolute. -/
theorem runnable_eq (h : fs.namesAbsolute depth path = true) (D D' : Place) :
    fs.runnable D depth path = fs.runnable D' depth path := by
  -- the interpreter of a script is the program of the next smaller depth
  induction depth generalizing path with
  | zero => rfl
  | succ depth ih =>
    rw [namesAbsolute, Bool.and_eq_true] at h
    obtain ⟨habs, hrest⟩ := h
    rw [runnable, runnable, executable_of_isAbsolute habs D [], executable_of_isAbsolute habs D' []]
    cases hfile : fs.executable [] path with
    | error e => rfl
    | ok found =>
      obtain ⟨q, bytes⟩ := found
      rw [hfile] at hrest
      change (if machineCodeMark.isPrefixOf bytes = true then Except.ok (Runnable.mk q []) else _) =
        (if machineCodeMark.isPrefixOf bytes = true then Except.ok (Runnable.mk q []) else _)
      cases hprogram : interpreter? bytes with
      | none => rfl
      | some program =>
        dsimp only at hrest ⊢
        rw [hprogram] at hrest
        rw [ih hrest]

end FileSystem

/-! ## Paths of tools -/

theorem isAbsolute_foldl_join {names : List Component} (h : path.isAbsolute = true) :
    (names.foldl (fun q c => q.join ⟨c.text⟩) path).isAbsolute = true := by
  induction names generalizing path with
  | nil => exact h
  | cons c names ih => exact ih (isAbsolute_join h ⟨c.text⟩)

theorem isAbsolute_fromHere (cwd : Place) (path : Path) : (fromHere cwd path).isAbsolute = true := by
  unfold fromHere
  split
  · next habs => exact habs
  · exact isAbsolute_foldl_join (Path.isAbsolute_ofNames cwd)

theorem isAbsolute_of_mem_searchCandidates {name : String}
    (h : path ∈ searchCandidates host name) : path.isAbsolute = true := by
  unfold searchCandidates at h
  dsimp only at h
  split at h
  · rw [List.mem_singleton.mp h]
    exact isAbsolute_fromHere host.cwd ⟨name⟩
  · split at h
    · exact absurd h List.not_mem_nil
    · obtain ⟨dir, -, rfl⟩ := List.mem_map.mp h
      exact isAbsolute_fromHere host.cwd _

namespace Host

/-- Tools that are found have absolute paths, whatever the search path and the name. -/
theorem findTool_isAbsolute {role : Role} {name : String} {tool : Tool}
    (h : host.findTool fs role name = .ok tool) : tool.path.isAbsolute = true := by
  unfold findTool at h
  split at h
  · next hfound =>
    rw [← Except.ok.inj h]
    exact isAbsolute_of_mem_searchCandidates (List.mem_of_find?_eq_some hfound)
  · cases h

/-! ## Files that are started -/

/-- A command can be started, and the file at `place` is what runs. -/
def StartsFile (host : Host) (command : Command) (stdout : Option OpenFile) (fs : FileSystem)
    (place : Place) : Prop :=
  host.checkTempDir fs = .ok () ∧
    ∃ launch, host.launch fs command stdout = .ok launch ∧ launch.executable = place

/-- An absolute path is not searched for. -/
theorem locate_of_isAbsolute (habs : path.isAbsolute = true) (search : Option String) (D : Place) :
    fs.locate search D path = (fs.runnable D 5 path).map fun found => (found, path) := by
  have hslash : path.text.toList.contains '/' = true := by
    rw [Path.isAbsolute, decide_eq_true_eq] at habs
    obtain ⟨cs, hcs⟩ := List.head?_eq_some_iff.mp habs
    simp [hcs]
  have hne : path.text.isEmpty = false := by
    simpa using text_ne_empty_of_isAbsolute habs
  unfold locate
  rw [hne, hslash]
  rfl

/-- A program with an absolute path is what runs from the directory of the command. -/
theorem launch_eq_ok_iff (habs : command.program.isAbsolute = true) {launch : Launch} :
    host.launch fs command stdout = .ok launch ↔
      ∃ D found, host.directoryOf fs command = .ok D ∧
        fs.runnable D 5 command.program = .ok found ∧
        launch = ⟨found.place, found.interpreters, command.program, command.arguments, D,
          host.environment, stdout⟩ := by
  unfold Host.launch
  constructor
  · intro h
    obtain ⟨D, hD, hrest⟩ := bind_eq_ok_iff.mp h
    obtain ⟨⟨found, invoked⟩, hfound, hpure⟩ := bind_eq_ok_iff.mp hrest
    rw [locate_of_isAbsolute habs] at hfound
    cases hrun : fs.runnable D 5 command.program with
    | error e =>
      rw [hrun] at hfound
      cases hfound
    | ok r =>
      rw [hrun] at hfound
      obtain ⟨rfl, rfl⟩ := Prod.mk.inj (Except.ok.inj hfound)
      exact ⟨D, r, hD, hrun, (Except.ok.inj hpure).symm⟩
  · rintro ⟨D, found, hD, hrun, rfl⟩
    rw [hD]
    change (fs.locate (host.var? "PATH") D command.program >>= _) = _
    rw [locate_of_isAbsolute habs, hrun]
    rfl

/-- A program with an absolute path is started if it runs from the directory of the command. -/
theorem startsFile_iff (habs : command.program.isAbsolute = true) :
    host.StartsFile command stdout fs place ↔ host.checkTempDir fs = .ok () ∧
      ∃ D found, host.directoryOf fs command = .ok D ∧
        fs.runnable D 5 command.program = .ok found ∧ found.place = place := by
  refine and_congr_right fun _ => ?_
  constructor
  · rintro ⟨launch, hlaunch, rfl⟩
    obtain ⟨D, found, hD, hrun, rfl⟩ := (launch_eq_ok_iff habs).mp hlaunch
    exact ⟨D, found, hD, hrun, rfl⟩
  · rintro ⟨D, found, hD, hrun, rfl⟩
    exact ⟨_, (launch_eq_ok_iff habs).mpr ⟨D, found, hD, hrun, rfl⟩, rfl⟩

/-- The file at `place` is what a command starts. Nothing else is, and it is started from every
directory from which it can be run. If all interpreters have absolute paths, that is every directory,
and the interpreters that run it are those that run it from any other. -/
structure StartsOnly (host : Host) (command : Command) (stdout : Option OpenFile)
    (fs : FileSystem) (place : Place) : Prop where
  only : ∀ other, host.StartsFile command stdout fs other → other = place
  starts : host.StartsFile command stdout fs place ↔
    ∃ D, host.directoryOf fs command = .ok D ∧ (fs.runnable D 5 command.program).isOk = true
  anywhere : fs.namesAbsolute 5 command.program = true →
    (host.directoryOf fs command).isOk = true → host.StartsFile command stdout fs place
  interpreters : fs.namesAbsolute 5 command.program = true →
    ∀ launch, host.launch fs command stdout = .ok launch →
      ∀ D found, fs.runnable D 5 command.program = .ok found →
        launch.interpreters = found.interpreters

/-- Where a program can be asked in the directory of the host, the file that answers is what
commands with this program start. -/
theorem startsOnly {arguments : List String} (habs : command.program.isAbsolute = true)
    (h : host.StartsFile ⟨command.program, arguments, none⟩ none fs place) :
    host.StartsOnly command stdout fs place := by
  have hasked : (Command.mk command.program arguments none).program.isAbsolute = true := habs
  obtain ⟨htemp, here, asked, -, hhere, hplace⟩ := (startsFile_iff hasked).mp h
  refine ⟨fun other hother => ?_, ?_, fun hnames hdir => ?_, fun hnames launch hlaunch D found hD => ?_⟩
  · obtain ⟨-, D, found, -, hthere, rfl⟩ := (startsFile_iff habs).mp hother
    rw [← hplace]
    exact runnable_place habs hhere hthere
  · rw [startsFile_iff habs]
    constructor
    · rintro ⟨-, D, found, hD, hthere, -⟩
      exact ⟨D, hD, by rw [hthere]; rfl⟩
    · rintro ⟨D, hD, hok⟩
      refine ⟨htemp, D, ?_⟩
      cases hthere : fs.runnable D 5 command.program with
      | error e =>
        rw [hthere] at hok
        cases hok
      | ok found => exact ⟨found, hD, rfl, (runnable_place habs hhere hthere).trans hplace⟩
  · cases hD : host.directoryOf fs command with
    | error e =>
      rw [hD] at hdir
      cases hdir
    | ok D =>
      exact (startsFile_iff habs).mpr
        ⟨htemp, D, asked, hD, (runnable_eq hnames D _).trans hhere, hplace⟩
  · obtain ⟨D', found', -, hthere, rfl⟩ := (launch_eq_ok_iff habs).mp hlaunch
    rw [runnable_eq hnames D' D, hD] at hthere
    rw [Except.ok.inj hthere]

/-! ## Tools that were asked -/

/-- The command that asks a tool. -/
def question (tool : Tool) (flag : String) : Command := ⟨tool.path, [flag], none⟩

/-- A command that has ended had been started. -/
theorem startsFile_of_run {name : String} {limit : Option Nat} {out : Captured}
    (h : host.run name command stdout limit fs = (.ok out, gs)) :
    ∃ place, host.StartsFile command stdout fs place := by
  unfold run at h
  split at h
  · cases h
  · next htemp =>
    split at h
    · cases h
    · next launch hlaunch => exact ⟨launch.executable, htemp, launch, hlaunch, rfl⟩

/-- A tool that has answered had been started. -/
theorem startsFile_of_query {tool : Tool} {flag answer : String} {limit : Nat}
    (h : host.query tool flag limit fs = (.ok answer, gs)) :
    ∃ place, host.StartsFile (question tool flag) none fs place := by
  obtain ⟨out, hs, hrun, -⟩ := Effect.bind_eq_ok.mp h
  exact startsFile_of_run (Effect.mapError_eq_ok.mp hrun)

/-- Where and how a tool was asked the question that decides: an exporter that does not give its
version is asked again, for its help, with what it has done by then. -/
def lastQuery (host : Host) (tool : Tool) (limit : Nat) (fs : FileSystem) : FileSystem × String :=
  match tool.role with
  | .analyzer _ => (fs, "--version")
  | .exporter =>
    match host.query tool "--version" limit fs with
    | (.ok _, _) => (fs, "--version")
    | (.error _, gs) => (gs, "--help")

/-- A tool that is usable has answered that question. -/
theorem query_of_probe {tool : Tool} {limit : Nat} {version : Option String}
    (h : host.probe tool limit fs = (.ok version, gs)) :
    ∃ answer, host.query tool (host.lastQuery tool limit fs).2 limit
      (host.lastQuery tool limit fs).1 = (.ok answer, gs) := by
  unfold probe at h
  unfold lastQuery
  cases hrole : tool.role with
  | analyzer kind =>
    rw [hrole] at h
    dsimp only at h
    rw [map_eq_pure_bind] at h
    obtain ⟨answer, hs, hanswer, hpure⟩ := Effect.bind_eq_ok.mp h
    obtain ⟨-, rfl⟩ := Prod.mk.inj hpure
    exact ⟨answer, Effect.mapError_eq_ok.mp hanswer⟩
  | exporter =>
    rw [hrole] at h
    obtain ⟨first, hs, hfirst, hrest⟩ := Effect.bind_eq_ok.mp h
    rw [Effect.outcome] at hfirst
    rcases hversion : host.query tool "--version" limit fs with ⟨e | answer, hs'⟩
    · rw [hversion] at hfirst
      obtain ⟨hoks, rfl⟩ := Prod.mk.inj hfirst
      obtain rfl := Except.ok.inj hoks
      obtain ⟨help, gs', hhelp, hpure⟩ := Effect.bind_eq_ok.mp hrest
      obtain ⟨-, rfl⟩ := Prod.mk.inj hpure
      exact ⟨help, Effect.mapError_eq_ok.mp hhelp⟩
    · rw [hversion] at hfirst
      obtain ⟨hoks, rfl⟩ := Prod.mk.inj hfirst
      obtain rfl := Except.ok.inj hoks
      obtain ⟨-, rfl⟩ := Prod.mk.inj hrest
      exact ⟨answer, hversion⟩

/-- A tool that is usable was found, and has answered. -/
theorem inspectTool_eq_ok {role : Role} {name : String} {limit : Nat} {finding : ToolFinding}
    {probed : ProbedTool} (h : host.inspectTool role name limit fs = (.ok finding, gs))
    (husable : finding.outcome = .ok probed) :
    host.findTool fs role name = .ok probed.tool ∧
      host.probe probed.tool limit fs = (.ok probed.version, gs) := by
  obtain ⟨found, hs, hlook, hrest⟩ := Effect.bind_eq_ok.mp h
  obtain ⟨hfound, rfl⟩ := Prod.mk.inj hlook
  have hfind : host.findTool fs role name = found := Except.ok.inj hfound
  rw [hfind]
  cases found with
  | error e =>
    obtain ⟨hfinding, -⟩ := Prod.mk.inj hrest
    rw [← Except.ok.inj hfinding] at husable
    cases husable
  | ok tool =>
    obtain ⟨answer, hs, hasked, hpure⟩ := Effect.bind_eq_ok.mp hrest
    rw [Effect.outcome] at hasked
    rcases hprobe : host.probe tool limit fs with ⟨e | version, hs'⟩
    · rw [hprobe] at hasked
      obtain ⟨hanswer, -⟩ := Prod.mk.inj hasked
      obtain rfl := Except.ok.inj hanswer
      obtain ⟨hfinding, -⟩ := Prod.mk.inj hpure
      rw [← Except.ok.inj hfinding] at husable
      cases husable
    · rw [hprobe] at hasked
      obtain ⟨hanswer, rfl⟩ := Prod.mk.inj hasked
      obtain rfl := Except.ok.inj hanswer
      obtain ⟨hfinding, rfl⟩ := Prod.mk.inj hpure
      rw [← Except.ok.inj hfinding] at husable
      obtain rfl := Except.ok.inj husable
      exact ⟨rfl, hprobe⟩

/-- The tool has an absolute path, and a file that answered. Whenever a question would still start
that file, it is the one that is started to make an index in any working copy, and to export any
index. -/
structure RunsAsProbed (host : Host) (tool : Tool) (limit : Nat) (fs : FileSystem) : Prop where
  isAbsolute : tool.path.isAbsolute = true
  answers : ∃ place,
    host.StartsFile (question tool (host.lastQuery tool limit fs).2) none
      (host.lastQuery tool limit fs).1 place ∧
    ∀ flag gs, host.StartsFile (question tool flag) none gs place →
      (∀ (call : IndexerCall) copy, call.tool = tool →
        host.StartsOnly (call.command copy) none gs place) ∧
      ∀ (call : ExporterCall) index output fs o sink command, call.tool = tool →
        host.prepareExport index output call fs = (.ok (o, sink, command), gs) →
          host.StartsOnly command (some sink) gs place

theorem runsAsProbed_of_inspectTool {role : Role} {name : String} {limit : Nat}
    {finding : ToolFinding} {probed : ProbedTool}
    (h : host.inspectTool role name limit fs = (.ok finding, gs))
    (husable : finding.outcome = .ok probed) : host.RunsAsProbed probed.tool limit fs := by
  obtain ⟨hfind, hprobe⟩ := inspectTool_eq_ok h husable
  have habs := findTool_isAbsolute hfind
  obtain ⟨answer, hanswer⟩ := query_of_probe hprobe
  obtain ⟨place, hstart⟩ := startsFile_of_query hanswer
  refine ⟨habs, place, hstart, fun flag gs hagain => ⟨?_, ?_⟩⟩
  · intro call copy htool
    have hprogram : (call.command copy).program = probed.tool.path := by
      rw [IndexerCall.command, htool]
    rw [question, ← hprogram] at hagain
    exact startsOnly (hprogram ▸ habs) hagain
  · intro call index output fs o sink command htool hprepare
    have hprogram : command.program = probed.tool.path := by
      rw [(prepareExport_eq_ok hprepare).1, htool]
    rw [question, ← hprogram] at hagain
    exact startsOnly (hprogram ▸ habs) hagain

/-- Tools that are reported as usable are run as they were asked. The exporter is asked when the
analyzer has answered. -/
theorem probed_tools_run {settings : Settings} {kind : Analyzer} {check : Inventory}
    (h : host.takeInventory settings kind fs = (.ok check, hs)) :
    (∀ probed, check.analyzer.outcome = .ok probed →
      host.RunsAsProbed probed.tool settings.probeLimit fs) ∧
    ∀ probed, check.exporter.outcome = .ok probed →
      host.RunsAsProbed probed.tool settings.probeLimit
        (host.inspectTool (.analyzer kind) (settings.analyzerProgram kind)
          settings.probeLimit fs).2 := by
  obtain ⟨analyzer, gs, hanalyzer, hrest⟩ := Effect.bind_eq_ok.mp h
  obtain ⟨exporter, gs', hexporter, hpure⟩ := Effect.bind_eq_ok.mp hrest
  obtain rfl := Except.ok.inj (Prod.mk.inj hpure).1
  rw [hanalyzer]
  exact ⟨fun _ husable => runsAsProbed_of_inspectTool hanalyzer husable,
    fun _ husable => runsAsProbed_of_inspectTool hexporter husable⟩

/-- A host that searches for tools below its own directory. -/
def searchingHost : Host where
  cwd := ["work"]
  environment := [("PATH", "bin")]
  tempNames := fun _ => "x"
  behaviour := quietBehaviour

/-- Tools in two directories, one of them a script with an interpreter beside it, and a working
copy. -/
def toolFiles : FileSystem where
  entries := [(["tmp"], .dir 0o777), (["work"], .dir 0o755), (["work", "bin"], .dir 0o755),
    (["work", "bin", "ana"], .file 0 0o755 machineCodeMark),
    (["work", "bin", "scip"], .file 1 0o755 machineCodeMark),
    (["work", "ana"], .file 2 0o755 (Text.Utf8.encode "#!runner\n")),
    (["work", "runner"], .file 3 0o755 machineCodeMark), (["work", "ws"], .dir 0o755)]
  next := 4

/-- Settings with an analyzer of that name. -/
def settingsFor (analyzer : String) : Settings := { tools := { primary := analyzer } }

/-- The tools that a relative search path leads to. -/
theorem relative_search_path_probed :
    searchingHost.RunsAsProbed ⟨.analyzer .primary, "ana", ⟨"/work/bin/ana"⟩⟩ 10000 toolFiles ∧
    searchingHost.RunsAsProbed ⟨.exporter, "scip", ⟨"/work/bin/scip"⟩⟩ 10000 toolFiles := by
  have hinventory : searchingHost.takeInventory (settingsFor "ana") .primary toolFiles =
      (.ok ⟨⟨.analyzer .primary, "ana",
          .ok ⟨⟨.analyzer .primary, "ana", ⟨"/work/bin/ana"⟩⟩, some ""⟩⟩,
        ⟨.exporter, "scip", .ok ⟨⟨.exporter, "scip", ⟨"/work/bin/scip"⟩⟩, some ""⟩⟩⟩, toolFiles) := by
    change @Eq (Except Empty Inventory × FileSystem) _ _
    decide +kernel
  have hanalyzed : (searchingHost.inspectTool (.analyzer .primary) "ana" 10000 toolFiles).2 =
      toolFiles := by decide +kernel
  obtain ⟨hanalyzer, hexporter⟩ := probed_tools_run hinventory
  refine ⟨hanalyzer _ rfl, ?_⟩
  have hprobed := hexporter _ rfl
  rwa [show (settingsFor "ana").analyzerProgram .primary = "ana" from rfl,
    show (settingsFor "ana").probeLimit = 10000 from rfl, hanalyzed] at hprobed

/-- A script that answers in the directory of the host is not started in a working copy that does
not have its interpreter. -/
theorem relative_interpreter_lost :
    (∃ check, searchingHost.takeInventory (settingsFor "./ana") .primary toolFiles =
        (.ok check, toolFiles) ∧
      check.analyzer.outcome = .ok ⟨⟨.analyzer .primary, "./ana", ⟨"/work/ana"⟩⟩, some ""⟩) ∧
    searchingHost.makeIndex plainCopy
        ⟨⟨.analyzer .primary, "./ana", ⟨"/work/ana"⟩⟩, "scip", "scip", none⟩ toolFiles =
      (.error (.child (.notStarted "./ana" Errno.noEntry)), toolFiles) := by
  refine ⟨⟨⟨⟨.analyzer .primary, "./ana",
      .ok ⟨⟨.analyzer .primary, "./ana", ⟨"/work/ana"⟩⟩, some ""⟩⟩,
    ⟨.exporter, "scip", .ok ⟨⟨.exporter, "scip", ⟨"/work/bin/scip"⟩⟩, some ""⟩⟩⟩, ?_, rfl⟩, ?_⟩
  · change @Eq (Except Empty Inventory × FileSystem) _ _
    decide +kernel
  · change @Eq (Except IndexingError FoundIndex × FileSystem) _ _
    decide +kernel

/-- In a working copy that has a file by the name of the interpreter, that file runs the script. -/
example :
    let tool : Tool := ⟨.analyzer .primary, "./ana", ⟨"/work/ana"⟩⟩
    let call : IndexerCall := ⟨tool, "scip", "scip", none⟩
    let files := toolFiles.put ["work", "ws", "runner"] (.file 4 0o755 machineCodeMark)
    (searchingHost.launch files (question tool "--version") none).map Launch.interpreters =
        .ok [["work", "runner"]] ∧
      (searchingHost.launch files (call.command plainCopy) none).map Launch.interpreters =
        .ok [["work", "ws", "runner"]] := by
  decide +kernel

end Host

end CodeIndex

import CodeIndex.Proofs.Job.Apart

/-!
# The project during a run

A run is to leave the project as it is, at every step and whatever becomes of the run. Three things
are in the way of that. A temporary directory may be in the project, if that is where the directory
for temporary files is. A destination may lead into the project by links that were not followed. And
the links of the project are in its copy, so that the output next to the index may be a link to a
file of the project.

* `Job.ToolsKeep` : the tools change nothing but what is in the copy, and their own output;
* `Job.sameBelow_passage_of_places` : runs that lead to places apart from the project keep it;
* `Job.source_kept_iff` : the project is kept at every step exactly if none of the three happens.
-/

namespace CodeIndex

open FileSystem

variable {host : Host} {fs gs hs : FileSystem} {S W F : Place} {copy : WorkingCopy}
  {request : Request} {settings : Settings} {index : Path} {output : Option Path}
  {call : ExporterCall}

namespace Host

/-! ## What it takes -/

/-- A temporary directory is new. -/
theorem get?_of_temporary {skip? : Except CopyError Exclusion} {skip : Exclusion} {root : Path}
    (hw : fs.WellFormed) (hS : fs.isDirAt S = true) (hsource : request.source = Path.ofNames S)
    (h : host.prepareCopy skip? request settings fs = (.ok (skip, copy), gs))
    (hroot : copy.placement = .temporary root)
    (hv : fs.lookup host.cwd (withoutEndSlashes root) false = .ok (.vacant F)) :
    fs.get? F = none ∧ gs.get? F ≠ none := by
  rcases host.prepareCopy_cases skip? request settings fs with ⟨e, he⟩ |
    ⟨name, skip', hproject, -, ⟨e, hs, -, he⟩ | ⟨copy', hs, hplace, hok⟩⟩
  · rw [he] at h
    cases h
  · rw [he] at h
    cases h
  rw [hok] at h
  obtain ⟨hcopy, rfl⟩ := Prod.mk.inj h
  obtain ⟨-, rfl⟩ := Prod.mk.inj (Except.ok.inj hcopy)
  cases hdest : request.destination with
  | none =>
    rcases placeWorkingCopy_temporary hdest host settings name fs with ⟨e, he⟩ |
      ⟨root', ks, hmade, hok'⟩
    · rw [he] at hplace
      cases hplace
    · rw [hok'] at hplace
      obtain ⟨hcopy, rfl⟩ := Prod.mk.inj hplace
      obtain rfl := Except.ok.inj hcopy
      obtain rfl := Placement.temporary.inj hroot
      obtain ⟨d, n, hv', -, -, hnone, rfl⟩ := createDir_eq_ok hmade
      obtain rfl := Found.vacant.inj (Except.ok.inj (hv.symm.trans hv'))
      refine ⟨hnone, ?_⟩
      rw [get?_put (by simp), if_pos rfl]
      exact Option.some_ne_none _
  | some given =>
    rw [hsource] at hproject
    obtain ⟨hname, -⟩ := projectName_eq_ok hw hS hproject
    unfold placeWorkingCopy at hplace
    rw [hdest] at hplace
    obtain ⟨d, hd⟩ := placement_of_placeBelow hw hname.toPlainName hplace
    rw [hd] at hroot
    cases hroot

/-- An export that keeps the project at every step writes apart from it. -/
theorem writesApart_of_sameBelow (hsame : SameBelow fs gs S)
    (h : ∀ hs ∈ host.exportPassage index output call gs, SameBelow fs hs S) :
    host.WritesApart index output call gs S := by
  unfold exportPassage at h
  unfold WritesApart
  rcases hprepare : host.prepareExport index output call gs with ⟨e | ⟨o, sink, command⟩, hs⟩ <;>
    rw [hprepare] at h
  · exact hsame.symm.trans (h hs (List.mem_singleton_self hs))
  · dsimp only at h ⊢
    have hopened := h hs (by simp)
    have hwritten := h _ (List.mem_cons_of_mem _ List.mem_cons_self)
    have hsettled := h (host.exportJson index output call gs).2 (by simp)
    refine ⟨hsame.symm.trans hopened, fun q hq _ => (hwritten q hq).trans (hopened q hq).symm,
      fun q e hq hstat => ?_⟩
    rw [hsettled q hq, ← hwritten q hq]
    exact get?_of_lookup (stat_eq_ok_iff.mp hstat)

end Host

namespace Job

/-- The tools change nothing but what is in the copy, and their own output. -/
def ToolsKeep (host : Host) (p : Job) (fs : FileSystem) : Prop :=
  ∀ copy gs W m, host.makeWorkingCopy p.request p.settings fs = (.ok copy, gs) →
    gs.stat host.cwd copy.path true = .ok (W, .dir m) →
      host.KeepsTo p.tools.analyzer W ∧ host.KeepsTo p.tools.exporter W

/-- From where the copy stands, a run spares the project if its tools keep to the copy and its output
is written apart from the project. -/
theorem sameBelow_passageOn {p : Job} (h : Spared host fs gs copy S W) (hw : fs.WellFormed)
    (hS : fs.isDirAt S = true) (hSW : ¬ S <+: W) (hWS : ¬ W <+: S)
    (hanalyzer : host.KeepsTo p.tools.analyzer W) (hexporter : host.KeepsTo p.tools.exporter W)
    (hout : ∀ found hs, host.makeIndex copy p.indexerCall gs = (.ok found, hs) → hs.WellFormed →
      host.WritesApart found.index p.request.jsonOutput p.exporterCall hs S) :
    ∀ ks ∈ p.passageOn host copy gs, SameBelow fs ks S := by
  have hanalyzed : Spared host fs (host.makeIndex copy p.indexerCall gs).2 copy S W := by
    let command : Command :=
      ⟨p.tools.analyzer.path, [p.settings.tools.analyzerSubcommand, "."], some copy.path⟩
    obtain ⟨hwr, hchanged⟩ := hanalyzer command none p.request.timeout gs rfl h.wellFormed
    rw [Host.makeIndex_snd]
    exact h.tool hw hSW hWS hwr none hchanged fun q sink _ hnone => by cases hnone
  unfold passageOn
  rcases hindex : host.makeIndex copy p.indexerCall gs with ⟨e | found, hs⟩ <;>
    rw [hindex] at hanalyzed
  · rw [List.forall_mem_cons, List.forall_mem_singleton]
    exact ⟨hanalyzed.sameBelow, hanalyzed.sameBelow_dispose hw hS _⟩
  · obtain ⟨hexport, hexported⟩ :=
      Host.spared_of_export hanalyzed hw hSW hWS hexporter
        (hout found hs hindex hanalyzed.wellFormed)
    dsimp only
    rw [List.forall_mem_cons, List.forall_mem_append, List.forall_mem_singleton]
    exact ⟨hanalyzed.sameBelow, hexport, hexported.sameBelow_dispose hw hS _⟩

/-- A run whose tools keep to the copy leaves the project as it is at every step, if the temporary
directory, the way to the destination and the output are apart from it. -/
theorem sameBelow_passage {p : Job} (hw : fs.WellFormed) (hS : fs.isDirAt S = true)
    (hsource : p.request.source = Path.ofNames S) (htools : p.ToolsKeep host fs)
    (htemp : host.TempApart (Host.exclusion p.settings.copyExclude) p.request p.settings fs S)
    (hway : host.WayApart (Host.exclusion p.settings.copyExclude) p.request p.settings fs S)
    (hout : ∀ copy gs found hs, host.makeWorkingCopy p.request p.settings fs = (.ok copy, gs) →
      host.makeIndex copy p.indexerCall gs = (.ok found, hs) → hs.WellFormed →
        host.WritesApart found.index p.request.jsonOutput p.exporterCall hs S) :
    ∀ gs ∈ p.passage host fs, SameBelow fs gs S := by
  obtain ⟨hplaced, hcopied, hstands⟩ := Host.spared_of_copy hw hS hsource htemp hway
  have hcopied' : SameBelow fs (host.makeWorkingCopy p.request p.settings fs).2 S := hcopied
  unfold passage
  rw [List.forall_mem_cons]
  refine ⟨hplaced, ?_⟩
  rcases hcopy : host.makeWorkingCopy p.request p.settings fs with ⟨e | copy, gs⟩
  · rw [hcopy] at hcopied'
    exact fun ks hks => by rwa [List.mem_singleton.mp hks]
  · obtain ⟨W, m, hm, hSW, hWS, hspared⟩ := hstands copy gs hcopy
    obtain ⟨hanalyzer, hexporter⟩ := htools copy gs W m hcopy hm
    dsimp only
    rw [List.forall_mem_cons]
    exact ⟨hspared.sameBelow, sameBelow_passageOn hspared hw hS hSW hWS hanalyzer hexporter
      fun found hs => hout copy gs found hs hcopy⟩

/-- That is so where these lead to places apart from the project, and no file stands in two places
when the index has been made. -/
theorem sameBelow_passage_of_places {p : Job} (hw : fs.WellFormed) (hS : fs.isDirAt S = true)
    (hsource : p.request.source = Path.ofNames S) (htools : p.ToolsKeep host fs)
    (htemp : host.TempApart (Host.exclusion p.settings.copyExclude) p.request p.settings fs S)
    (hdest : ∀ given R, p.request.destination = some given → PlainPlace R →
      fs.settledDestination host.cwd given = .ok (Path.ofNames R) → fs.Clear R ∨
        ∃ q u D, R = q ++ u ∧ fs.Arrives host.cwd q u D ∧
          ¬ S <+: Host.copyPlace (D ++ u) S ∧ ¬ Host.copyPlace (D ++ u) S <+: S)
    (hout : ∀ copy gs found hs, host.makeWorkingCopy p.request p.settings fs = (.ok copy, gs) →
      host.makeIndex copy p.indexerCall gs = (.ok found, hs) →
        hs.SingleNamed ∧ host.OutputApart found.index p.request.jsonOutput p.exporterCall hs S) :
    ∀ gs ∈ p.passage host fs, SameBelow fs gs S := by
  refine sameBelow_passage hw hS hsource htools htemp (Host.wayApart_of_arrives hw hS hsource hdest)
    fun copy gs found hs hcopy hindex hwh => ?_
  obtain ⟨hsingle, hplaces⟩ := hout copy gs found hs hcopy hindex
  exact Host.writesApart_of_places hwh hsingle hplaces

/-- With tools that keep to the copy, the project is as it was after every step of a run exactly if
no temporary directory is made in it, the destination is not reached by a link to it, and the output
is written apart from it. The last step leaves what the run leaves. -/
theorem source_kept_iff {p : Job} (hw : fs.WellFormed) (hS : fs.isDirAt S = true)
    (hsource : p.request.source = Path.ofNames S) (htools : p.ToolsKeep host fs) :
    (p.passage host fs).getLast? = some (p.run host fs).files ∧
    ((∀ gs ∈ p.passage host fs, SameBelow fs gs S) ↔
      host.TempApart (Host.exclusion p.settings.copyExclude) p.request p.settings fs S ∧
      host.WayApart (Host.exclusion p.settings.copyExclude) p.request p.settings fs S ∧
        ∀ copy gs found hs, host.makeWorkingCopy p.request p.settings fs = (.ok copy, gs) →
          host.makeIndex copy p.indexerCall gs = (.ok found, hs) →
            host.WritesApart found.index p.request.jsonOutput p.exporterCall hs S) := by
  refine ⟨p.getLast?_passage host fs, fun h => ⟨?_, ?_, ?_⟩, ?_⟩
  · intro skip copy gs root F hprepare hroot hv hSF
    obtain ⟨hnone, hsome⟩ := Host.get?_of_temporary hw hS hsource hprepare hroot hv
    have hsame := h gs (by unfold passage; rw [hprepare]; exact List.mem_cons_self)
    rw [hsame F hSF] at hsome
    exact hsome hnone
  · intro given R hdest hR hsettled
    refine Or.inr ⟨h _ List.mem_cons_self, h _ (List.mem_cons_of_mem _ ?_)⟩
    change (host.makeWorkingCopy p.request p.settings fs).2 ∈ _
    rcases host.makeWorkingCopy p.request p.settings fs with ⟨e | copy, gs⟩
    · exact List.mem_cons_self
    · exact List.mem_cons_self
  · intro copy gs found hs hcopy hindex
    have hpassage : p.passage host fs = (host.prepareCopy (Host.exclusion p.settings.copyExclude)
        p.request p.settings fs).2 :: gs :: p.passageOn host copy gs := by
      unfold passage
      rw [hcopy]
    have hon : ∀ ks ∈ p.passageOn host copy gs, SameBelow fs ks S := fun ks hks =>
      h ks (by rw [hpassage]; exact List.mem_cons_of_mem _ (List.mem_cons_of_mem _ hks))
    unfold passageOn at hon
    rw [hindex] at hon
    dsimp only at hon
    refine Host.writesApart_of_sameBelow (hon hs List.mem_cons_self) fun ks hks => ?_
    exact hon ks (List.mem_cons_of_mem _ (List.mem_append_left _ hks))
  · rintro ⟨htemp, hway, hout⟩
    exact sameBelow_passage hw hS hsource htools htemp hway
      fun copy gs found hs hcopy hindex _ => hout copy gs found hs hcopy hindex

/-! ## Two projects, one with a link -/

/-- Where the copy of a project is made. -/
def copiedPlace : Place := ["tmp", "scip_analysis_x", "proj"]

/-- Surroundings in which an analyzer leaves an index in the copy, and an exporter writes to its
output. -/
def workingHost : Host where
  cwd := ["work"]
  environment := []
  tempNames := fun _ => "x"
  behaviour := fun launch fs _ =>
    match launch.stdout with
    | some sink => .ended (fs.write sink [123, 125]) [] [] (.exited 0) 0
    | none =>
      if fs.isDirAt copiedPlace ∧ fs.get? (copiedPlace ++ ["index.scip"]) = none then
        .ended (fs.putNewFile (copiedPlace ++ ["index.scip"]) fileMode) [] [] (.exited 0) 0
      else .ended fs [] [] (.exited 0) 0

/-- Tools, a project with notes, and more. -/
def notesWith (more : List (Place × Entry)) (next : Nat) : FileSystem where
  entries := more ++ [(["tmp"], .dir 0o777), (["bin"], .dir 0o755),
    (["bin", "ana"], .file 0 0o755 machineCodeMark), (["bin", "exp"], .file 1 0o755 machineCodeMark),
    (["work"], .dir 0o755), (["work", "proj"], .dir 0o755),
    (["work", "proj", "notes.txt"], .file 2 0o644 [107])]
  next := next

/-- The project is to be analyzed in a temporary copy. -/
def notesJob : Job where
  request := ⟨⟨"/work/proj"⟩, .primary, none, none, false, none⟩
  settings := {}
  tools := ⟨⟨.analyzer .primary, "ana", ⟨"/bin/ana"⟩⟩, ⟨.exporter, "exp", ⟨"/bin/exp"⟩⟩⟩

/-- What the programs of a working host do. -/
theorem workingHost_cases (launch : Launch) (fs : FileSystem) (allowance : Option Nat) :
    (∃ sink, launch.stdout = some sink ∧
      (workingHost.behaviour launch fs allowance).files = fs.write sink [123, 125]) ∨
    (fs.isDirAt copiedPlace = true ∧ fs.get? (copiedPlace ++ ["index.scip"]) = none ∧
      (workingHost.behaviour launch fs allowance).files =
        fs.putNewFile (copiedPlace ++ ["index.scip"]) fileMode) ∨
    (workingHost.behaviour launch fs allowance).files = fs := by
  cases hstdout : launch.stdout with
  | some sink => exact Or.inl ⟨sink, rfl, by simp [workingHost, hstdout]⟩
  | none =>
    by_cases hfree : fs.isDirAt copiedPlace = true ∧
        fs.get? (copiedPlace ++ ["index.scip"]) = none
    · refine Or.inr (Or.inl ⟨hfree.1, hfree.2, ?_⟩)
      simp only [workingHost, hstdout]
      rw [if_pos hfree, Run.files_ended]
    · refine Or.inr (Or.inr ?_)
      simp only [workingHost, hstdout]
      rw [if_neg hfree, Run.files_ended]

theorem keepsTo_workingHost (tool : Tool) : workingHost.KeepsTo tool copiedPlace := by
  refine Host.keepsTo_of_behaviour (fun launch fs allowance hw => ?_) tool
  dsimp only
  rcases workingHost_cases launch fs allowance with ⟨sink, hstdout, hfiles⟩ |
    ⟨hdir, hfree, hfiles⟩ | hfiles
  · rw [hfiles]
    exact ⟨hw.write sink _, fun q hq => Or.inr ⟨sink, hstdout, OpenFile.isAt_of_write hq⟩⟩
  · rw [hfiles]
    refine ⟨hw.putNewFile hdir (by decide) hfree fileMode, fun q hq => Or.inl ?_⟩
    by_cases hindex : q = copiedPlace ++ ["index.scip"]
    · exact hindex ▸ List.prefix_append copiedPlace ["index.scip"]
    · rw [get?_putNewFile (by simp), if_neg hindex] at hq
      exact absurd rfl hq
  · rw [hfiles]
    exact ⟨hw, fun q hq => absurd rfl hq⟩

/-- The copy of the project. -/
def notesCopy : WorkingCopy :=
  ⟨⟨"/tmp/scip_analysis_x/proj"⟩, .temporary ⟨"/tmp/scip_analysis_x"⟩⟩

theorem toolsKeep_notesJob (hcopy : workingHost.makeWorkingCopy notesJob.request notesJob.settings
      fs = (.ok notesCopy, gs))
    (hplace : gs.stat ["work"] notesCopy.path true = .ok (copiedPlace, .dir dirMode)) :
    notesJob.ToolsKeep workingHost fs := by
  intro copy hs W m hmade hstands
  rw [hcopy] at hmade
  obtain ⟨hcopy', rfl⟩ := Prod.mk.inj hmade
  obtain rfl := Except.ok.inj hcopy'
  obtain ⟨rfl, -⟩ := Prod.mk.inj (Except.ok.inj (hplace.symm.trans hstands))
  exact ⟨keepsTo_workingHost _, keepsTo_workingHost _⟩

/-- What a copy of the notes adds. -/
def copiedNotes : List (Place × Entry) :=
  [(copiedPlace ++ ["notes.txt"], .file 3 0o644 [107]), (copiedPlace, .dir 0o755),
    (["tmp", "scip_analysis_x"], .dir 0o700)]

/-- What is there after the analysis. -/
def indexedNotes : FileSystem :=
  notesWith ((copiedPlace ++ ["index.scip"], .file 4 0o644 []) :: copiedNotes) 5

/-- The index that the analyzer leaves. -/
def notesFound : FoundIndex :=
  ⟨⟨"/tmp/scip_analysis_x/proj/index.scip"⟩, .exited 0, "", "", .expected⟩

/-- How the exporter is run. -/
def notesCommand : Command :=
  ⟨⟨"/bin/exp"⟩, ["print", "--json", "index.scip"], some ⟨"/tmp/scip_analysis_x/proj"⟩⟩

/-- What is there when the output has been opened. -/
def openedNotes : FileSystem :=
  notesWith ([(copiedPlace ++ ["index_scip.json"], .file 5 0o644 []),
    (copiedPlace ++ ["index.scip"], .file 4 0o644 [])] ++ copiedNotes) 6

/-- The output is a new file in the copy. -/
theorem writesApart_notes : workingHost.WritesApart notesFound.index none notesJob.exporterCall
    indexedNotes ["work", "proj"] := by
  have hopened : workingHost.prepareExport notesFound.index none notesJob.exporterCall indexedNotes =
      (.ok (⟨"/tmp/scip_analysis_x/proj/index_scip.json"⟩, .file 5, notesCommand), openedNotes) := by
    change @Eq (Except ExportError (Path × OpenFile × Command) × FileSystem) _ _
    decide +kernel
  have hpath : workingHost.exportPath notesFound.index none notesJob.exporterCall.jsonFileName =
      .ok ⟨"/tmp/scip_analysis_x/proj/index_scip.json"⟩ := by decide +kernel
  have hw : indexedNotes.WellFormed := by decide
  have hs : indexedNotes.SingleNamed := by decide
  apply Host.writesApart_of_places hw hs
  constructor
  · intro o ho q _ hnone
    obtain rfl := Except.ok.inj (hpath.symm.trans ho)
    have hthere : (workingHost.withParents ⟨"/tmp/scip_analysis_x/proj/index_scip.json"⟩
        indexedNotes).1 = indexedNotes := by decide +kernel
    rwa [hthere]
  · intro o found ho hfound
    obtain rfl := Except.ok.inj (hpath.symm.trans ho)
    have hvacant : (workingHost.withParents ⟨"/tmp/scip_analysis_x/proj/index_scip.json"⟩
        indexedNotes).1.lookup workingHost.cwd ⟨"/tmp/scip_analysis_x/proj/index_scip.json"⟩ true =
          .ok (.vacant (copiedPlace ++ ["index_scip.json"])) := by decide +kernel
    obtain rfl := Except.ok.inj (hvacant.symm.trans hfound)
    decide
  · intro o sink command gs hprepare q e hstat
    rw [hopened] at hprepare
    obtain ⟨hprepared, rfl⟩ := Prod.mk.inj hprepare
    obtain ⟨rfl, hrest⟩ := Prod.mk.inj (Except.ok.inj hprepared)
    obtain ⟨rfl, rfl⟩ := Prod.mk.inj hrest
    have hplace : (workingHost.run notesJob.exporterCall.tool.name notesCommand (some (.file 5))
        notesJob.exporterCall.timeout openedNotes).2.stat workingHost.cwd
          ⟨"/tmp/scip_analysis_x/proj/index_scip.json"⟩ false =
        .ok (copiedPlace ++ ["index_scip.json"], .file 5 0o644 [123, 125]) := by decide +kernel
    obtain ⟨rfl, -⟩ := Prod.mk.inj (Except.ok.inj (hplace.symm.trans hstat))
    decide

/-- The temporary directory is not in the project. -/
theorem tempApart_notes : workingHost.TempApart (Host.exclusion notesJob.settings.copyExclude)
    notesJob.request notesJob.settings (notesWith [] 3) ["work", "proj"] := by
  intro skip copy gs root F hprepare hroot hv
  have hcopy : (workingHost.prepareCopy (Host.exclusion notesJob.settings.copyExclude)
      notesJob.request notesJob.settings (notesWith [] 3)).1.map Prod.snd = .ok notesCopy := by
    decide +kernel
  have hplace : (notesWith [] 3).lookup ["work"] (withoutEndSlashes ⟨"/tmp/scip_analysis_x"⟩) false =
      .ok (.vacant ["tmp", "scip_analysis_x"]) := by decide +kernel
  rw [hprepare] at hcopy
  obtain rfl : copy = notesCopy := Except.ok.inj hcopy
  obtain rfl := Placement.temporary.inj hroot
  obtain rfl := Found.vacant.inj (Except.ok.inj (hplace.symm.trans hv))
  decide

/-- A run on a project without links leaves the project as it was. -/
theorem plain_project_kept : SameBelow (notesWith [] 3)
    (notesJob.run workingHost (notesWith [] 3)).files ["work", "proj"] := by
  have hsource : notesJob.request.source = Path.ofNames ["work", "proj"] := by decide
  have hcopied : workingHost.makeWorkingCopy notesJob.request notesJob.settings (notesWith [] 3) =
      (.ok notesCopy, notesWith copiedNotes 4) := by
    change @Eq (Except CopyError WorkingCopy × FileSystem) _ _
    decide +kernel
  have hindexed : workingHost.makeIndex notesCopy notesJob.indexerCall (notesWith copiedNotes 4) =
      (.ok notesFound, indexedNotes) := by
    change @Eq (Except IndexingError FoundIndex × FileSystem) _ _
    decide +kernel
  obtain ⟨hlast, hiff⟩ := source_kept_iff (by decide) (by decide) hsource
    (toolsKeep_notesJob hcopied (by decide +kernel))
  refine hiff.mpr ⟨tempApart_notes, Host.wayApart_of_temporary rfl,
    fun copy gs found hs hcopy hindex => ?_⟩ _ (List.mem_of_getLast? hlast)
  rw [hcopied] at hcopy
  obtain ⟨hcopy', rfl⟩ := Prod.mk.inj hcopy
  obtain rfl := Except.ok.inj hcopy'
  rw [hindexed] at hindex
  obtain ⟨hfound, rfl⟩ := Prod.mk.inj hindex
  obtain rfl := Except.ok.inj hfound
  exact writesApart_notes

/-- A project in which the name of the output is a link to the notes. -/
def linkedNotes : FileSystem :=
  notesWith [(["work", "proj", "index_scip.json"], .link ⟨"/work/proj/notes.txt"⟩)] 3

/-- The tools keep to the copy, but the link leads the exporter to the notes. -/
theorem linked_project_overwritten :
    notesJob.ToolsKeep workingHost linkedNotes ∧
      (notesJob.run workingHost linkedNotes).files.get? ["work", "proj", "notes.txt"] =
        some (.file 2 0o644 [123, 125]) := by
  have hcopied : workingHost.makeWorkingCopy notesJob.request notesJob.settings linkedNotes =
      (.ok notesCopy, notesWith ([(copiedPlace ++ ["notes.txt"], .file 3 0o644 [107]),
        (copiedPlace ++ ["index_scip.json"], .link ⟨"/work/proj/notes.txt"⟩),
        (copiedPlace, .dir 0o755), (["tmp", "scip_analysis_x"], .dir 0o700),
        (["work", "proj", "index_scip.json"], .link ⟨"/work/proj/notes.txt"⟩)]) 4) := by
    change @Eq (Except CopyError WorkingCopy × FileSystem) _ _
    decide +kernel
  exact ⟨toolsKeep_notesJob hcopied (by decide +kernel), by decide +kernel⟩

end Job

end CodeIndex

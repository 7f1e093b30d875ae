import CodeIndex.Proofs.Export.Outcome
import CodeIndex.Proofs.FileSystem.Standing
import CodeIndex.Proofs.Job.Ends
import CodeIndex.Proofs.Job.Source
import CodeIndex.Proofs.WorkingCopy.Disposal

/-!
# Accounts of runs

The account of a run says whether the copy was kept, which is so exactly if it is there. It also
says whether the JSON file was kept. This goes by how the paths are spelled: a file that is spelled
outside of the copy is said to be kept, though its way may come by the directory that has been
removed.

* `Host.KeepsDir` : a tool that leaves a directory where a path leads to one;
* `Job.isDir_of_workOn` : the copy is there when the work on it is over;
* `Job.account_true_iff` : when the account is true.
-/

namespace CodeIndex

open FileSystem

variable {host : Host} {fs gs hs : FileSystem} {path : Path} {copy : WorkingCopy} {p : Job}
  {found : FoundIndex} {exported : Exported} {a : Account}

namespace FileSystem

/-- What leaves everything but files in place leaves a directory where a path leads to one. -/
theorem isDir_of_keep {cwd : Place} (hkeep : ∀ q x, fs.get? q = some x → x.fileId? = none →
      gs.get? q = some x) (h : fs.isDir cwd path = true) : gs.isDir cwd path = true := by
  obtain ⟨D, m, hD⟩ := isDir_iff.mp h
  have hways : KeepsWays fs gs := (KeepsWays.refl fs).step fun q x _ hx hid => hkeep q x hx hid
  obtain ⟨m', hm'⟩ := hways.lookup_dir hD
  exact isDir_iff.mpr ⟨D, m', hm'⟩

end FileSystem

namespace Host

/-- Running a tool leaves a directory where a path leads to one. -/
def KeepsDir (host : Host) (tool : Tool) (path : Path) : Prop :=
  ∀ command stdout limit fs, command.program = tool.path → fs.WellFormed →
    let gs := (host.run tool.name command stdout limit fs).2
    gs.WellFormed ∧ (fs.isDir host.cwd path = true → gs.isDir host.cwd path = true)

/-- Where programs leave everything but files in place, tools keep all directories. -/
theorem keepsDir_of_behaviour (h : ∀ launch fs allowance, fs.WellFormed →
      let gs := (host.behaviour launch fs allowance).files
      gs.WellFormed ∧ ∀ q x, fs.get? q = some x → x.fileId? = none → gs.get? q = some x)
    (tool : Tool) (path : Path) : host.KeepsDir tool path := by
  intro command stdout limit fs _ hw
  rcases host.run_snd tool.name command stdout limit fs with hsame | ⟨launch, allowance, -, -, hrun⟩
  · rw [hsame]
    exact ⟨hw, id⟩
  · rw [hrun]
    obtain ⟨hwr, hkeep⟩ := h launch fs allowance hw
    exact ⟨hwr, isDir_of_keep hkeep⟩

end Host

namespace Job

/-- The tools leave the copy where it is. -/
def ToolsLeave (host : Host) (p : Job) (fs : FileSystem) : Prop :=
  ∀ copy gs, host.makeWorkingCopy p.request p.settings fs = (.ok copy, gs) →
    host.KeepsDir p.tools.analyzer copy.path ∧ host.KeepsDir p.tools.exporter copy.path

/-- The copy is there when the work on it is over. -/
theorem isDir_of_workOn (hw : gs.WellFormed) (hdir : gs.isDir host.cwd copy.path = true)
    (hanalyzer : host.KeepsDir p.tools.analyzer copy.path)
    (hexporter : host.KeepsDir p.tools.exporter copy.path)
    (h : p.workOn host copy gs = (.ok (found, exported), hs)) :
    hs.WellFormed ∧ hs.isDir host.cwd copy.path = true := by
  obtain ⟨ks, hindex, hexport⟩ := workOn_eq_ok h
  obtain ⟨sink, command, os, hprepare, rfl, -, -⟩ := Host.exportJson_eq_ok hexport
  obtain ⟨hprogram, hopened⟩ := Host.prepareExport_eq_ok hprepare
  have hanalyzed : ks.WellFormed ∧ ks.isDir host.cwd copy.path = true := by
    obtain ⟨hwr, hkept⟩ := hanalyzer ⟨p.tools.analyzer.path, [p.indexerCall.subcommand, "."],
      some copy.path⟩ none p.indexerCall.timeout gs rfl hw
    have hks := Host.makeIndex_snd host copy p.indexerCall gs
    rw [hindex] at hks
    dsimp only at hks
    rw [hks]
    exact ⟨hwr, hkept hdir⟩
  have hready : os.WellFormed ∧ os.isDir host.cwd copy.path = true := by
    obtain ⟨hwo, hkeep⟩ := Host.openExport_keeps hanalyzed.1 host exported.output
    rw [hopened] at hwo hkeep
    exact ⟨hwo, isDir_of_keep hkeep hanalyzed.2⟩
  obtain ⟨hwr, hkept⟩ :=
    hexporter command (some sink) p.exporterCall.timeout os hprogram hready.1
  exact ⟨hwr, hkept hready.2⟩

/-- Of an output that an export has left, the JSON file is there after the disposal of the copy
exactly if it is a file and its way is not cut off. -/
theorem isFile_size_dispose_iff {bytes : Nat} (hw : hs.WellFormed) (copy : WorkingCopy)
    (keepCopy : Bool) (hsize : hs.size host.cwd path = .ok bytes) :
    ((host.dispose copy keepCopy hs).2.isFile host.cwd path = true ∧
        (host.dispose copy keepCopy hs).2.size host.cwd path = .ok bytes) ↔
      hs.isFile host.cwd path = true ∧ ¬ host.CutsOff copy keepCopy hs path := by
  constructor
  · rintro ⟨hfile, -⟩
    obtain ⟨q, id, mode, bs, hstat⟩ := isFile_iff.mp hfile
    obtain ⟨hstat, hcut⟩ := (Host.stat_dispose_iff hw).mp hstat
    exact ⟨isFile_iff.mpr ⟨q, id, mode, bs, hstat⟩, hcut⟩
  · rintro ⟨hfile, hcut⟩
    obtain ⟨q, id, mode, bs, hstat⟩ := isFile_iff.mp hfile
    have hstat' := (Host.stat_dispose_iff hw).mpr ⟨hstat, hcut⟩
    refine ⟨isFile_iff.mpr ⟨q, id, mode, bs, hstat'⟩, ?_⟩
    rw [← hsize, size, size, hstat, hstat']

/-- An account tells rightly whether the copy is there. Whether the JSON file is there it tells
rightly in two cases: the copy is not, and the file is spelled below it, or the file is there when
the exporter has ended and the disposal of the copy does not cut it off. -/
theorem account_true_iff (hw : fs.WellFormed) (htools : p.ToolsLeave host fs)
    (hok : (p.run host fs).outcome = .ok a) :
    (a.copyKept = true ↔ (p.run host fs).files.pathExists host.cwd a.copy = true) ∧
    ∃ copy gs work hs, host.makeWorkingCopy p.request p.settings fs = (.ok copy, gs) ∧
      p.workOn host copy gs = (.ok work, hs) ∧
      ((a.outputKept = true ↔ (p.run host fs).files.isFile host.cwd a.jsonOutput = true ∧
          (p.run host fs).files.size host.cwd a.jsonOutput = .ok a.size) ↔
        a.copyKept = false ∧ a.jsonOutput.startsWith a.copy = true ∨
          hs.isFile host.cwd a.jsonOutput = true ∧
            ¬ host.CutsOff copy p.request.keepCopy hs a.jsonOutput) := by
  obtain ⟨copy, gs, found, exported, hs, warnings, hmade, hwork, hfiles, rfl⟩ := run_eq_ok hok
  obtain ⟨hanalyzer, hexporter⟩ := htools copy gs hmade
  obtain ⟨skip, fs₁, W, hplace, -, hv, hstands⟩ := Host.stands_of_copyProject hw hmade
  have hdir : gs.isDir host.cwd copy.path = true := by
    obtain ⟨m, hm⟩ := hstands.lookup hv
    exact isDir_iff.mpr ⟨W, m, hm⟩
  obtain ⟨hwh, hthere⟩ := isDir_of_workOn hstands.wellFormed hdir hanalyzer hexporter hwork
  have hexists : hs.pathExists host.cwd copy.path = true := by
    obtain ⟨D, m, hD⟩ := isDir_iff.mp hthere
    exact pathExists_of_lookup hD
  obtain ⟨ks, -, hexport⟩ := workOn_eq_ok hwork
  obtain ⟨sink, command, os, -, -, hsize, -⟩ := Host.exportJson_eq_ok hexport
  have hfile := isFile_size_dispose_iff hwh copy p.request.keepCopy hsize
  rw [hfiles]
  refine ⟨Host.isKept_iff_pathExists hw hplace hwh hexists, copy, gs, (found, exported), hs, hmade,
    hwork, ?_⟩
  simp only [account]
  rw [hfile]
  cases hkept : (host.dispose copy p.request.keepCopy hs).1.isKept with
  | true => simp
  | false =>
    cases hspelled : exported.output.startsWith copy.path with
    | false => simp
    | true =>
      have hnone := Host.pathExists_of_not_kept hw hplace hwh hkept hspelled
      have hnot : ¬ (hs.isFile host.cwd exported.output = true ∧
          ¬ host.CutsOff copy p.request.keepCopy hs exported.output) := by
        intro hthere
        obtain ⟨q, id, mode, bs, hstat⟩ := isFile_iff.mp (hfile.mpr hthere).1
        rw [pathExists_iff.mpr ⟨q, _, hstat⟩] at hnone
        cases hnone
      simpa using hnot

/-! ## Two accounts, one of them wrong -/

/-- The programs of a working host leave everything but files in place. -/
theorem workingHost_keeps (launch : Launch) (allowance : Option Nat) (hw : fs.WellFormed) :
    (workingHost.behaviour launch fs allowance).files.WellFormed ∧
      ∀ q x, fs.get? q = some x → x.fileId? = none →
        (workingHost.behaviour launch fs allowance).files.get? q = some x := by
  rcases workingHost_cases launch fs allowance with ⟨sink, -, hfiles⟩ | ⟨hdir, hfree, hfiles⟩ |
    hfiles
  · rw [hfiles]
    exact ⟨hw.write sink _, fun q x hx hid => get?_write_of_some hx hid sink _⟩
  · rw [hfiles]
    refine ⟨hw.putNewFile hdir (by decide) hfree fileMode, fun q x hx _ => ?_⟩
    have hne : q ≠ copiedPlace ++ ["index.scip"] := fun heq => by
      rw [heq, hfree] at hx
      cases hx
    rw [get?_putNewFile (by simp), if_neg hne, hx]
  · rw [hfiles]
    exact ⟨hw, fun q x hx _ => hx⟩

/-- The account of the run on the notes. -/
def notesAccount : Account where
  project := ⟨"/work/proj"⟩
  kind := .primary
  analyzer := "ana"
  copy := notesCopy.path
  copyKept := false
  index := notesFound.index
  indexSearched := false
  jsonOutput := ⟨"/tmp/scip_analysis_x/proj/index_scip.json"⟩
  size := 2
  outputKept := false
  warnings := []

/-- The account of the run on the notes is true. -/
theorem notes_account_true :
    (notesJob.run workingHost (notesWith [] 3)).outcome = .ok notesAccount ∧
    (notesAccount.copyKept = true ↔ (notesJob.run workingHost (notesWith [] 3)).files.pathExists
      workingHost.cwd notesAccount.copy = true) ∧
    (notesAccount.outputKept = true ↔ (notesJob.run workingHost (notesWith [] 3)).files.isFile
        workingHost.cwd notesAccount.jsonOutput = true ∧
      (notesJob.run workingHost (notesWith [] 3)).files.size workingHost.cwd
        notesAccount.jsonOutput = .ok notesAccount.size) := by
  have hok : (notesJob.run workingHost (notesWith [] 3)).outcome = .ok notesAccount := by
    decide +kernel
  have htools : notesJob.ToolsLeave workingHost (notesWith [] 3) := fun copy gs _ =>
    ⟨Host.keepsDir_of_behaviour (fun launch _ allowance => workingHost_keeps launch allowance) _ _,
      Host.keepsDir_of_behaviour (fun launch _ allowance => workingHost_keeps launch allowance) _ _⟩
  obtain ⟨hcopy, copy, gs, work, hs, -, -, hiff⟩ := account_true_iff (by decide) htools hok
  exact ⟨hok, hcopy, hiff.mpr (Or.inl ⟨rfl, by decide +kernel⟩)⟩

/-- Surroundings in which programs also leave a link to the copy next to the project. -/
def linkingHost : Host :=
  workingHost.withBehaviour fun launch fs allowance =>
    let r := workingHost.behaviour launch fs allowance
    if r.files.isDirAt ["work"] = true ∧ r.files.get? ["work", "latest"] = none then
      { r with files := r.files.put ["work", "latest"] (.link notesCopy.path) }
    else r

/-- The output is to go where the link leads. -/
def latestJob : Job :=
  { notesJob with
    request := { notesJob.request with jsonOutput := some ⟨"/work/latest/out.json"⟩ } }

theorem toolsLeave_linkingHost : latestJob.ToolsLeave linkingHost fs := by
  have hkeep : ∀ tool path, linkingHost.KeepsDir tool path := by
    refine Host.keepsDir_of_behaviour fun launch gs allowance hw => ?_
    obtain ⟨hwr, hkept⟩ := workingHost_keeps launch allowance hw
    generalize hr : (workingHost.behaviour launch gs allowance).files = hs at hwr hkept
    by_cases hfree : hs.isDirAt ["work"] = true ∧ hs.get? ["work", "latest"] = none
    · have hfiles : (linkingHost.behaviour launch gs allowance).files =
          hs.put ["work", "latest"] (.link notesCopy.path) := by
        simp only [linkingHost, Host.withBehaviour, hr]
        rw [if_pos hfree]
      dsimp only
      rw [hfiles]
      exact ⟨hwr.put hfree.1 (by decide) hfree.2 rfl,
        fun q x hx hid => get?_put_of_some (by simp) hfree.2 (hkept q x hx hid)⟩
    · have hfiles : (linkingHost.behaviour launch gs allowance).files = hs := by
        simp only [linkingHost, Host.withBehaviour, hr]
        rw [if_neg hfree, hr]
      dsimp only
      rw [hfiles]
      exact ⟨hwr, hkept⟩
  exact fun copy gs _ => ⟨hkeep _ _, hkeep _ _⟩

/-- The file that the account says was kept went with the directory that the link led to. -/
theorem linked_output_lost :
    latestJob.ToolsLeave linkingHost (notesWith [] 3) ∧
    (latestJob.run linkingHost (notesWith [] 3)).outcome =
      .ok { notesAccount with jsonOutput := ⟨"/work/latest/out.json"⟩, outputKept := true } ∧
    (latestJob.run linkingHost (notesWith [] 3)).files.pathExists linkingHost.cwd
      ⟨"/work/latest/out.json"⟩ = false := by
  exact ⟨toolsLeave_linkingHost, by decide +kernel, by decide +kernel⟩

end Job

end CodeIndex

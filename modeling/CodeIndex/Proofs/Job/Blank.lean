import CodeIndex.Proofs.Export.Written
import CodeIndex.Proofs.Job.Partial

/-!
# Output without bytes

An output to which nothing was written is removed when the exporter has ended, whatever it came to.
What goes is what the path names; what was opened is what the path leads to. Where the name is that
of a link, the link goes and the file that it led to stays, without bytes.

* `FileSystem.BlankAt`, `FileSystem.LeadsToBlank` : files without bytes;
* `Host.blankAt_dropIfEmpty_iff` : what is left of an output without bytes;
* `Job.Opens` : a run that opens its output;
* `Job.blank_left_iff` : which file without bytes is there after such a run.
-/

namespace CodeIndex

open FileSystem

variable {host : Host} {fs gs hs os ks : FileSystem} {cwd q O : Place} {o : Path} {x : Entry}
  {copy : WorkingCopy} {p : Job} {sink : OpenFile} {bytes : List UInt8} {command : Command}

namespace FileSystem

/-- A file without bytes stands at a place. -/
def BlankAt (fs : FileSystem) (q : Place) : Prop := ∃ id mode, fs.get? q = some (.file id mode [])

/-- A path leads to a file without bytes. -/
def LeadsToBlank (fs : FileSystem) (cwd : Place) (path : Path) : Prop :=
  ∃ q id mode, fs.stat cwd path true = .ok (q, .file id mode [])

end FileSystem

namespace Host

/-- When an output that was only written to has been dropped if it is empty, its path leads to no
file without bytes. One is left where it led exactly if nothing was written to a file that a link
led to. -/
theorem blankAt_dropIfEmpty_iff (hw : ks.WellFormed)
    (hopened : host.openExport o hs = (.ok sink, os))
    (hwritten : OnlyWritten host.cwd o sink bytes os ks)
    (hO : os.lookup host.cwd o true = .ok (.entry O x)) :
    (dropIfEmpty host.cwd o ks).2.WellFormed ∧
    ¬ (dropIfEmpty host.cwd o ks).2.LeadsToBlank host.cwd o ∧
    ((dropIfEmpty host.cwd o ks).2.BlankAt O ↔
      bytes = [] ∧ x.isFile = true ∧ ∃ t, os.readLink host.cwd o = .ok t) := by
  obtain ⟨y, hy, hnolink, hnodir, hkind⟩ := followed_of_onlyWritten hopened hwritten hO
  obtain ⟨L, z, hL, hnamed, hlink⟩ := named_of_onlyWritten hwritten hO
  have hdropped := fun hsize => get?_dropIfEmpty_of_zero hw hsize hy hnolink hnodir hL hnamed
  rcases hkind with ⟨id, mode, rfl, hfile⟩ | ⟨⟨kind, rfl⟩, hfile⟩
  · have hsize : ks.size host.cwd o = .ok bytes.length := by
      rw [size, stat_eq_ok_iff.mpr hy]
      rfl
    by_cases hempty : bytes = []
    · subst hempty
      obtain ⟨hwl, hnowhere, hleft⟩ := hdropped hsize
      refine ⟨hwl, ?_, ?_⟩
      · rintro ⟨q, id', mode', hstat⟩
        exact hnowhere q _ hstat
      · rw [and_iff_right rfl, and_iff_right hfile, ← hlink]
        constructor
        · rintro ⟨id', mode', hblank⟩
          exact ((hleft _).mp hblank).1
        · intro hz
          exact ⟨id, mode, (hleft _).mpr ⟨hz, rfl⟩⟩
    · rw [dropIfEmpty_of_ne_zero hsize fun h => hempty (List.length_eq_zero_iff.mp h)]
      refine ⟨hw, ?_, iff_of_false ?_ fun h => hempty h.1⟩
      · rintro ⟨q, id', mode', hstat⟩
        have hfound := (lookup_unique hy (stat_eq_ok_iff.mp hstat)).2
        exact hempty (Entry.file.inj hfound).2.2
      · rintro ⟨id', mode', hblank⟩
        rw [get?_of_lookup hy] at hblank
        exact hempty (Entry.file.inj (Option.some.inj hblank)).2.2
  · -- A device has no bytes, so that its name goes, but it is no file.
    have hsize : ks.size host.cwd o = .ok 0 := by
      rw [size, stat_eq_ok_iff.mpr hy]
      rfl
    obtain ⟨hwl, hnowhere, hleft⟩ := hdropped hsize
    refine ⟨hwl, ?_, iff_of_false ?_ fun h => ?_⟩
    · rintro ⟨q, id', mode', hstat⟩
      exact hnowhere q _ hstat
    · rintro ⟨id', mode', hblank⟩
      cases ((hleft _).mp hblank).2
    · exact Bool.false_ne_true (hfile.symm.trans h.2.1)

end Host

namespace Job

/-! ## Runs that open an output -/

/-- A run opens its output: it has its copy and an index in it, and the exporter is about to start
on `os`. -/
def Opens (host : Host) (p : Job) (fs : FileSystem) (copy : WorkingCopy) (o : Path)
    (sink : OpenFile) (command : Command) (os : FileSystem) : Prop :=
  ∃ gs found hs, host.makeWorkingCopy p.request p.settings fs = (.ok copy, gs) ∧
    host.makeIndex copy p.indexerCall gs = (.ok found, hs) ∧
    host.prepareExport found.index p.request.jsonOutput p.exporterCall hs =
      (.ok (o, sink, command), os)

/-- What is there when the exporter has ended. -/
def afterExporter (host : Host) (p : Job) (sink : OpenFile) (command : Command)
    (os : FileSystem) : FileSystem :=
  (host.run p.exporterCall.tool.name command (some sink) p.exporterCall.timeout os).2

namespace Opens

/-- A run that opens its output drops it if it is empty, and disposes of its copy at last. -/
theorem files_eq (h : p.Opens host fs copy o sink command os) :
    (p.run host fs).files = (host.dispose copy p.request.keepCopy
      (dropIfEmpty host.cwd o (p.afterExporter host sink command os)).2).2 := by
  obtain ⟨gs, found, hs, hmade, hindex, hprepare⟩ := h
  rcases p.run_cases host fs with ⟨c, hnone, -⟩ |
    ⟨copy', gs', result, ks, hmade', hwork, hfiles, -, -⟩
  · rw [hmade] at hnone
    cases hnone
  · rw [hmade] at hmade'
    obtain ⟨hcopy, rfl⟩ := Prod.mk.inj hmade'
    obtain rfl := Except.ok.inj hcopy
    have hks := workOn_snd_of_indexed (p := p) hindex
    rw [hwork, Host.exportJson_of_ok hprepare, Host.settleExport_snd] at hks
    rw [hfiles]
    exact congrArg (fun ls => (host.dispose copy p.request.keepCopy ls).2) hks

/-- Tools that leave well-formed file systems leave one for the end of the exporter. -/
theorem wellFormed (h : p.Opens host fs copy o sink command os) (hw : fs.WellFormed)
    (hanalyzer : host.KeepsForm p.tools.analyzer) (hexporter : host.KeepsForm p.tools.exporter) :
    (p.afterExporter host sink command os).WellFormed ∧
      ∃ hs, host.openExport o hs = (.ok sink, os) := by
  obtain ⟨gs, found, hs, hmade, hindex, hprepare⟩ := h
  obtain ⟨skip, fs₁, W, -, -, -, hstands⟩ := Host.stands_of_copyProject hw hmade
  have hwh : hs.WellFormed := by
    have hsnd := Host.makeIndex_snd host copy p.indexerCall gs
    rw [hindex] at hsnd
    dsimp only at hsnd
    rw [hsnd]
    exact hanalyzer _ _ _ _ rfl hstands.wellFormed
  obtain ⟨hprogram, hopened⟩ := Host.prepareExport_eq_ok hprepare
  have hwo := (Host.openExport_keeps hwh host o).1
  rw [hopened] at hwo
  exact ⟨hexporter _ _ _ _ hprogram hwo, hs, hopened⟩

end Opens

/-- After a run that opened its output, to which its exporter did nothing but write bytes, the path
of the output leads to no file without bytes. One stands where the path led exactly if nothing was
written to a file, a link led to it, and the disposal of the copy has left it. -/
theorem blank_left_iff (hw : fs.WellFormed) (hanalyzer : host.KeepsForm p.tools.analyzer)
    (hexporter : host.KeepsForm p.tools.exporter)
    (hopens : p.Opens host fs copy o sink command os)
    (hwritten : OnlyWritten host.cwd o sink bytes os (p.afterExporter host sink command os))
    (hO : os.stat host.cwd o true = .ok (O, x)) :
    ¬ (p.run host fs).files.LeadsToBlank host.cwd o ∧
    ((p.run host fs).files.BlankAt O ↔
      bytes = [] ∧ x.isFile = true ∧ (∃ t, os.readLink host.cwd o = .ok t) ∧
        ¬ host.Sweeps copy p.request.keepCopy
          (dropIfEmpty host.cwd o (p.afterExporter host sink command os)).2 O) := by
  obtain ⟨hwk, hs, hopened⟩ := hopens.wellFormed hw hanalyzer hexporter
  obtain ⟨hwl, hpath, hplace⟩ :=
    Host.blankAt_dropIfEmpty_iff hwk hopened hwritten (stat_eq_ok_iff.mp hO)
  rw [hopens.files_eq]
  constructor
  · rintro ⟨q, id, mode, hstat⟩
    exact hpath ⟨q, id, mode, ((Host.stat_dispose_iff hwl).mp hstat).1⟩
  · have hfound := stat_eq_ok_iff.mp hO
    have hne : O ≠ [] :=
      ne_nil_of_isDir (get?_of_lookup hfound) (Host.isDir_of_openExport hopened hfound)
    constructor
    · rintro ⟨id, mode, hblank⟩
      obtain ⟨hleft, hswept⟩ := (Host.get?_dispose_iff hwl hne).mp hblank
      obtain ⟨hbytes, hfile, hlink⟩ := hplace.mp ⟨id, mode, hleft⟩
      exact ⟨hbytes, hfile, hlink, hswept⟩
    · rintro ⟨hbytes, hfile, hlink, hswept⟩
      obtain ⟨id, mode, hleft⟩ := hplace.mpr ⟨hbytes, hfile, hlink⟩
      exact ⟨id, mode, (Host.get?_dispose_iff hwl hne).mpr ⟨hleft, hswept⟩⟩

/-! ## An exporter that is silent -/

/-- Surroundings in which the exporter succeeds and writes nothing. -/
def silentHost : Host :=
  workingHost.withBehaviour fun launch fs allowance =>
    match launch.stdout with
    | some _ => .ended fs [] [] (.exited 0) 0
    | none => workingHost.behaviour launch fs allowance

theorem keepsForm_silentHost (tool : Tool) : silentHost.KeepsForm tool := by
  refine Host.keepsForm_of_behaviour (fun launch fs allowance hw => ?_) tool
  unfold silentHost Host.withBehaviour
  dsimp only
  split
  · exact hw
  · exact (workingHost_keeps launch allowance hw).1

/-- The output next to the index in the copy of the notes. -/
def notesOutput : Path := ⟨"/tmp/scip_analysis_x/proj/index_scip.json"⟩

/-- The run on the notes opens its output. -/
theorem opens_notes : notesJob.Opens silentHost (notesWith [] 3) notesCopy notesOutput (.file 5)
    notesCommand openedNotes := by
  refine ⟨notesWith copiedNotes 4, notesFound, indexedNotes, ?_, ?_, ?_⟩
  · change @Eq (Except CopyError WorkingCopy × FileSystem) _ _
    decide +kernel
  · change @Eq (Except IndexingError FoundIndex × FileSystem) _ _
    decide +kernel
  · change @Eq (Except ExportError (Path × OpenFile × Command) × FileSystem) _ _
    decide +kernel

/-- Of an output that is no link, nothing is left if nothing was written. -/
theorem silent_output_gone :
    ¬ (notesJob.run silentHost (notesWith [] 3)).files.LeadsToBlank silentHost.cwd notesOutput ∧
    ¬ (notesJob.run silentHost (notesWith [] 3)).files.BlankAt
      (copiedPlace ++ ["index_scip.json"]) := by
  have hwritten : OnlyWritten silentHost.cwd notesOutput (.file 5) [] openedNotes
      (notesJob.afterExporter silentHost (.file 5) notesCommand openedNotes) := by
    intro follow
    cases follow <;> decide +kernel
  have hO : openedNotes.stat silentHost.cwd notesOutput true =
      .ok (copiedPlace ++ ["index_scip.json"], .file 5 0o644 []) := by decide +kernel
  have hplain : openedNotes.readLink silentHost.cwd notesOutput = .error .invalid := by
    decide +kernel
  obtain ⟨hpath, hplace⟩ := blank_left_iff (by decide) (keepsForm_silentHost _)
    (keepsForm_silentHost _) opens_notes hwritten hO
  refine ⟨hpath, fun hblank => ?_⟩
  obtain ⟨-, -, ⟨t, ht⟩, -⟩ := hplace.mp hblank
  rw [hplain] at ht
  cases ht

/-- The notes, and next to them a file and a link to it. -/
def publishedNotes : FileSystem :=
  notesWith [(["work", "out.json"], .file 3 0o644 [79]),
    (["work", "latest.json"], .link ⟨"/work/out.json"⟩)] 4

/-- The output is to go where the link leads. -/
def publishJob : Job :=
  { notesJob with
    request := { notesJob.request with jsonOutput := some ⟨"/work/latest.json"⟩ } }

/-- What is there when the notes with a published output are copied. -/
def copiedBeside : List (Place × Entry) :=
  [(copiedPlace ++ ["notes.txt"], .file 4 0o644 [107]), (copiedPlace, .dir 0o755),
    (["tmp", "scip_analysis_x"], .dir 0o700)]

/-- What is there when the published output is open. -/
def openedPublished : FileSystem :=
  notesWith ((copiedPlace ++ ["index.scip"], .file 5 0o644 []) :: copiedBeside ++
    [(["work", "out.json"], .file 3 0o644 []),
      (["work", "latest.json"], .link ⟨"/work/out.json"⟩)]) 6

theorem opens_published : publishJob.Opens silentHost publishedNotes notesCopy
    ⟨"/work/latest.json"⟩ (.file 3) notesCommand openedPublished := by
  refine ⟨notesWith (copiedBeside ++ [(["work", "out.json"], .file 3 0o644 [79]),
      (["work", "latest.json"], .link ⟨"/work/out.json"⟩)]) 5, notesFound,
    notesWith ((copiedPlace ++ ["index.scip"], .file 5 0o644 []) :: copiedBeside ++
      [(["work", "out.json"], .file 3 0o644 [79]),
        (["work", "latest.json"], .link ⟨"/work/out.json"⟩)]) 6, ?_, ?_, ?_⟩
  · change @Eq (Except CopyError WorkingCopy × FileSystem) _ _
    decide +kernel
  · change @Eq (Except IndexingError FoundIndex × FileSystem) _ _
    decide +kernel
  · change @Eq (Except ExportError (Path × OpenFile × Command) × FileSystem) _ _
    decide +kernel

/-- If the output is a link and nothing was written, the link goes, and the file that it led to is
left without bytes. -/
theorem linked_output_left_blank :
    ∃ copy sink command os, publishJob.Opens silentHost publishedNotes copy ⟨"/work/latest.json"⟩
        sink command os ∧
      OnlyWritten silentHost.cwd ⟨"/work/latest.json"⟩ sink [] os
        (publishJob.afterExporter silentHost sink command os) ∧
      os.stat silentHost.cwd ⟨"/work/latest.json"⟩ true =
        .ok (["work", "out.json"], .file 3 0o644 []) ∧
      (publishJob.run silentHost publishedNotes).files.get? ["work", "latest.json"] = none ∧
      (publishJob.run silentHost publishedNotes).files.BlankAt ["work", "out.json"] := by
  refine ⟨notesCopy, .file 3, notesCommand, openedPublished, opens_published, ?_, ?_, ?_, ?_⟩
  · intro follow
    cases follow <;> decide +kernel
  · decide +kernel
  · decide +kernel
  · exact ⟨3, 0o644, by decide +kernel⟩

end Job

end CodeIndex

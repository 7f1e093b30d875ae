import CodeIndex.Proofs.Job.Account

/-!
# Unfinished output

A run whose exporter fails names the output if anything has been written to it. The disposal of the
copy comes afterwards, and may take the output with it.

* `Host.KeepsForm` : a tool that leaves a well-formed file system;
* `Host.bytes_of_kept` : output that is said to be kept holds the bytes that were written;
* `Job.kept_output_iff` : when the output that is named is there after the run.
-/

namespace CodeIndex

open FileSystem

variable {host : Host} {fs gs hs ks : FileSystem} {o : Path} {copy : WorkingCopy} {p : Job}
  {status : ExitStatus} {stderr : String} {sink : OpenFile}

/-- What has a size is there. -/
theorem FileSystem.pathExists_of_size {cwd : Place} {n : Nat} (h : fs.size cwd o = .ok n) :
    fs.pathExists cwd o = true := by
  cases hstat : fs.stat cwd o true with
  | error e =>
    rw [size, hstat] at h
    cases h
  | ok r => exact pathExists_iff.mpr ⟨r.1, r.2, hstat⟩

namespace Host

/-- Running a tool leaves a well-formed file system. -/
def KeepsForm (host : Host) (tool : Tool) : Prop :=
  ∀ command stdout limit fs, command.program = tool.path → fs.WellFormed →
    (host.run tool.name command stdout limit fs).2.WellFormed

/-- Where programs leave well-formed file systems, tools do. -/
theorem keepsForm_of_behaviour (h : ∀ launch fs allowance, fs.WellFormed →
      (host.behaviour launch fs allowance).files.WellFormed) (tool : Tool) :
    host.KeepsForm tool := by
  intro command stdout limit fs _ hw
  rcases host.run_snd tool.name command stdout limit fs with hsame | ⟨launch, allowance, -, -, hrun⟩
  · rw [hsame]
    exact hw
  · rw [hrun]
    exact h launch fs allowance hw

/-- An output that is not empty, and to which nothing was done but that bytes were written to it
when it was open, is a file of these bytes. -/
theorem bytes_of_kept {n : Nat} {bytes : List UInt8}
    (hopened : host.openExport o fs = (.ok sink, gs))
    (hwritten : hs.lookup host.cwd o true = (gs.write sink bytes).lookup host.cwd o true)
    (hsize : hs.size host.cwd o = .ok n) (hpos : 0 < n) :
    bytes ≠ [] ∧ ∃ q id mode, hs.stat host.cwd o true = .ok (q, .file id mode bytes) := by
  obtain ⟨q, ⟨id, mode, -, -, hfile⟩ | ⟨kind, -, -, hdevice⟩⟩ := lookup_of_written hopened hwritten
  · have hstat := stat_eq_ok_iff.mpr hfile
    refine ⟨?_, q, id, mode, hstat⟩
    rintro rfl
    rw [size, hstat] at hsize
    obtain rfl := Except.ok.inj hsize
    exact absurd hpos (Nat.lt_irrefl 0)
  · -- A device has no bytes, whatever is written to it.
    rw [size, stat_eq_ok_iff.mpr hdevice] at hsize
    obtain rfl := Except.ok.inj hsize
    exact absurd hpos (Nat.lt_irrefl 0)

/-- What is read after the disposal of a copy was read before, on ways that it does not cut off. -/
theorem read_dispose_iff {q : Place} {id mode : Nat} {bytes : List UInt8} {keepCopy : Bool}
    (hw : hs.WellFormed) (hstat : hs.stat host.cwd o true = .ok (q, .file id mode bytes)) :
    (host.dispose copy keepCopy hs).2.read host.cwd o = .ok bytes ↔
      ¬ host.CutsOff copy keepCopy hs o := by
  constructor
  · intro hread
    cases hafter : (host.dispose copy keepCopy hs).2.stat host.cwd o true with
    | error e =>
      rw [FileSystem.read, hafter] at hread
      cases hread
    | ok r => exact ((stat_dispose_iff hw).mp hafter).2
  · intro hcut
    rw [FileSystem.read, (stat_dispose_iff hw).mpr ⟨hstat, hcut⟩]

end Host

namespace Job

/-- An output that a failed run says was kept is there after the run, with the bytes that the
exporter has written to it, exactly if the disposal of the copy does not cut it off. -/
theorem kept_output_iff (hw : fs.WellFormed) (hanalyzer : host.KeepsForm p.tools.analyzer)
    (hexporter : host.KeepsForm p.tools.exporter)
    (herr : (p.run host fs).outcome =
      .error (.converting (.unsuccessful status stderr (some o)))) :
    ∃ copy gs found hs sink command os,
      host.makeWorkingCopy p.request p.settings fs = (.ok copy, gs) ∧
      host.makeIndex copy p.indexerCall gs = (.ok found, hs) ∧
      host.prepareExport found.index p.request.jsonOutput p.exporterCall hs =
        (.ok (o, sink, command), os) ∧
      let call := p.exporterCall
      let ks := (host.run call.tool.name command (some sink) call.timeout os).2
      ((p.run host fs).files.pathExists host.cwd o = true ↔
        ¬ host.CutsOff copy p.request.keepCopy ks o) ∧
      ∀ bytes, ks.lookup host.cwd o true = (os.write sink bytes).lookup host.cwd o true →
        bytes ≠ [] ∧ ((p.run host fs).files.read host.cwd o = .ok bytes ↔
          ¬ host.CutsOff copy p.request.keepCopy ks o) := by
  obtain ⟨copy, gs, found, hs, ks, hmade, hindex, hexport, hfiles⟩ := run_eq_unexported herr
  obtain ⟨sink, command, os, hprepare, rfl, n, hsize, hpos⟩ :=
    Host.exportJson_eq_unsuccessful hexport
  obtain ⟨hprogram, hopened⟩ := Host.prepareExport_eq_ok hprepare
  obtain ⟨skip, fs₁, W, -, -, -, hstands⟩ := Host.stands_of_copyProject hw hmade
  have hwh : hs.WellFormed := by
    have hsnd := Host.makeIndex_snd host copy p.indexerCall gs
    rw [hindex] at hsnd
    dsimp only at hsnd
    rw [hsnd]
    exact hanalyzer _ _ _ _ rfl hstands.wellFormed
  have hwo : os.WellFormed := by
    have hkeeps := (Host.openExport_keeps hwh host o).1
    rwa [hopened] at hkeeps
  have hwk : (host.run p.exporterCall.tool.name command (some sink)
      p.exporterCall.timeout os).2.WellFormed := hexporter _ _ _ _ hprogram hwo
  refine ⟨copy, gs, found, hs, sink, command, os, hmade, hindex, hprepare, ?_,
    fun bytes hwritten => ?_⟩
  · rw [hfiles, Host.pathExists_dispose_iff hwk]
    exact and_iff_right (pathExists_of_size hsize)
  · obtain ⟨hne, q, id, mode, hstat⟩ := Host.bytes_of_kept hopened hwritten hsize hpos
    rw [hfiles]
    exact ⟨hne, Host.read_dispose_iff hwk hstat⟩

/-! ## Two exporters that fail -/

/-- Surroundings in which the exporter writes a byte and fails. -/
def failingHost : Host :=
  workingHost.withBehaviour fun launch fs allowance =>
    match launch.stdout with
    | some sink => .ended (fs.write sink [123]) [] [] (.exited 1) 0
    | none => workingHost.behaviour launch fs allowance

theorem keepsForm_failingHost (tool : Tool) : failingHost.KeepsForm tool := by
  refine Host.keepsForm_of_behaviour (fun launch fs allowance hw => ?_) tool
  unfold failingHost Host.withBehaviour
  dsimp only
  split
  · exact hw.write _ _
  · exact (workingHost_keeps launch allowance hw).1

/-- The copy of the notes is to be kept. -/
def keptJob : Job := { notesJob with request := { notesJob.request with keepCopy := true } }

/-- The output of an exporter that fails in a copy that is kept is there. -/
theorem partial_output_there :
    (keptJob.run failingHost (notesWith [] 3)).outcome = .error (.converting
      (.unsuccessful (.exited 1) "" (some ⟨"/tmp/scip_analysis_x/proj/index_scip.json"⟩))) ∧
    (keptJob.run failingHost (notesWith [] 3)).files.pathExists failingHost.cwd
      ⟨"/tmp/scip_analysis_x/proj/index_scip.json"⟩ = true := by
  have herr : (keptJob.run failingHost (notesWith [] 3)).outcome = .error (.converting
      (.unsuccessful (.exited 1) "" (some ⟨"/tmp/scip_analysis_x/proj/index_scip.json"⟩))) := by
    decide +kernel
  obtain ⟨copy, gs, found, hs, sink, command, os, -, -, -, hthere, -⟩ :=
    kept_output_iff (by decide) (keepsForm_failingHost _) (keepsForm_failingHost _) herr
  refine ⟨herr, hthere.mpr ?_⟩
  rintro ⟨root, ks, F, e, hkeep, -⟩
  cases hkeep

/-- If the copy is not kept, the output is said to be kept and is not there. -/
theorem partial_output_removed :
    (notesJob.run failingHost (notesWith [] 3)).outcome = .error (.converting
      (.unsuccessful (.exited 1) "" (some ⟨"/tmp/scip_analysis_x/proj/index_scip.json"⟩))) ∧
    (notesJob.run failingHost (notesWith [] 3)).files.pathExists failingHost.cwd
      ⟨"/tmp/scip_analysis_x/proj/index_scip.json"⟩ = false := by
  decide +kernel

end Job

end CodeIndex

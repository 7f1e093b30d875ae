import CodeIndex.Proofs.Job.Course
import CodeIndex.Proofs.Job.Source
import CodeIndex.Proofs.WorkingCopy.Standing

/-!
# Cleaning up

Whatever stage a run ends in, it removes the temporary directory that it made, unless the copy is to
be kept, or it warns of the one that is left. A copy that is to be kept, or that has a destination,
is there afterwards.

* `Host.StaysIn` : a tool that leaves the ways outside of a place as they are;
* `Stands.makeIndex`, `Stands.exportJson`, `Stands.workOn` : what stands before the work on a copy
  stands after it;
* `Job.cleaned_up` : what is left when a run ends.
-/

namespace CodeIndex

open FileSystem

variable {host : Host} {fs gs hs ks : FileSystem} {F W X : Place} {copy : WorkingCopy} {root : Path}
  {skip : Exclusion} {name : String} {p : Job}

namespace Host

/-- Running a tool leaves directories at a place and outside of it, and links outside of it. What it
does to files, and to what is in the directory, is its own affair. -/
def StaysIn (host : Host) (tool : Tool) (W : Place) : Prop :=
  ∀ command stdout limit fs, command.program = tool.path → fs.WellFormed →
    (host.run tool.name command stdout limit fs).2.WellFormed ∧
      KeepsOutside fs (host.run tool.name command stdout limit fs).2 W

end Host

/-! ## The steps of the work -/

namespace FileSystem.Stands

theorem makeIndex {call : IndexerCall} (h : Stands fs gs X) (hnew : ∀ q, X <+: q → fs.get? q = none)
    (hXW : X <+: W) (htool : host.StaysIn call.tool W) (copy : WorkingCopy) :
    Stands fs (host.makeIndex copy call gs).2 X := by
  rw [Host.makeIndex_snd]
  obtain ⟨hwr, hkeep⟩ := htool ⟨call.tool.path, [call.subcommand, "."], some copy.path⟩ none
    call.timeout gs rfl h.wellFormed
  exact h.within hnew hXW hwr hkeep

/-- What is made of an output leaves a directory standing. -/
theorem dropped {o : Path} (h : Stands fs gs X) (hdrop : host.Dropped o gs hs) :
    Stands fs hs X := by
  rcases hdrop with rfl | ⟨hsize, hgone⟩
  · exact h
  · obtain ⟨q, e, hstat, hdir, rfl⟩ := removeFile_eq_ok hgone
    exact h.erase hstat hdir hsize

theorem exportJson {call : ExporterCall} (h : Stands fs gs X)
    (hnew : ∀ q, X <+: q → fs.get? q = none) (hXW : X <+: W) (htool : host.StaysIn call.tool W)
    (index : Path) (output : Option Path) :
    Stands fs (host.exportJson index output call gs).2 X := by
  have hopened : ∀ o, Stands fs (host.openExport o gs).2 X := by
    intro o
    obtain ⟨hwo, hkeep⟩ := Host.openExport_keeps h.wellFormed host o
    exact h.mono hwo hkeep
  rcases host.prepareExport_cases index output call gs with ⟨e, he⟩ |
    ⟨o, -, ⟨e, he⟩ | ⟨sink, command, hprogram, -, hok⟩⟩
  · rw [Host.exportJson_of_error he]
    exact h
  · rw [Host.exportJson_of_error he]
    exact hopened o
  · rw [Host.exportJson_of_ok hok]
    obtain ⟨hwr, hkeep⟩ := htool command (some sink) call.timeout (host.openExport o gs).2 hprogram
      (hopened o).wellFormed
    exact ((hopened o).within hnew hXW hwr hkeep).dropped (host.dropped_settleExport o _ _)

/-- A directory that stands when a copy has been made stands when the work on it is over. -/
theorem workOn (h : Stands fs gs X) (hnew : ∀ q, X <+: q → fs.get? q = none) (hXW : X <+: W)
    (hanalyzer : host.StaysIn p.tools.analyzer W) (hexporter : host.StaysIn p.tools.exporter W)
    (copy : WorkingCopy) : Stands fs (p.workOn host copy gs).2 X := by
  have hanalyzed : Stands fs (host.makeIndex copy p.indexerCall gs).2 X :=
    h.makeIndex hnew hXW hanalyzer copy
  rcases hindex : host.makeIndex copy p.indexerCall gs with ⟨c | found, hs⟩
  · rw [hindex] at hanalyzed
    rw [Job.workOn_of_unindexed hindex]
    exact hanalyzed
  · rw [hindex] at hanalyzed
    rw [Job.workOn_snd_of_indexed hindex]
    exact Stands.exportJson hanalyzed hnew hXW hexporter found.index p.request.jsonOutput

end FileSystem.Stands

/-! ## What a run leaves -/

namespace FileSystem

/-- A path leads to the directory it led to. -/
def SameDir (fs gs : FileSystem) (cwd : Place) (path : Path) : Prop :=
  ∃ D m m', fs.stat cwd path true = .ok (D, .dir m) ∧ gs.stat cwd path true = .ok (D, .dir m')

end FileSystem

namespace Job

/-- Where the copy of a run is made. -/
def placeCopy (host : Host) (p : Job) : Effect CopyError (Exclusion × WorkingCopy) :=
  host.prepareCopy (Host.exclusion p.settings.copyExclude) p.request p.settings

/-- The tools leave the ways outside of the copy as they are, and do not remove it. -/
def ToolsStay (host : Host) (p : Job) (fs : FileSystem) : Prop :=
  ∀ copy gs W m, host.makeWorkingCopy p.request p.settings fs = (.ok copy, gs) →
    gs.stat host.cwd copy.path true = .ok (W, .dir m) →
      host.StaysIn p.tools.analyzer W ∧ host.StaysIn p.tools.exporter W

/-- The temporary directory of a copy that fails can be removed. -/
def AbandonsFreely (host : Host) (p : Job) (fs : FileSystem) : Prop :=
  ∀ skip copy gs root e hs, p.placeCopy host fs = (.ok (skip, copy), gs) →
    copy.placement = .temporary root →
    copyBelow host.cwd skip p.request.source copy.path gs = (.error e, hs) →
      ∃ ks, hs.removeTree host.cwd root = .ok ks

/-- The warning about a temporary directory that could not be removed. -/
def stuckWarning (root : Path) (e : IoError) : Event := (Disposal.stuck root e).event

/-- No place for the copy, no copy. -/
theorem makeWorkingCopy_of_unplaced {e : CopyError} (h : p.placeCopy host fs = (.error e, gs)) :
    host.makeWorkingCopy p.request p.settings fs = (.error e, gs) := by
  unfold placeCopy at h
  unfold Host.makeWorkingCopy Host.copyProject
  rw [Effect.bind_of_error _ h]

theorem makeWorkingCopy_of_placed (h : p.placeCopy host fs = (.ok (skip, copy), gs)) :
    host.makeWorkingCopy p.request p.settings fs =
      host.fillWorkingCopy skip p.request.source copy gs := by
  unfold placeCopy at h
  unfold Host.makeWorkingCopy Host.copyProject
  rw [Effect.bind_of_ok _ h]

/-- A copy that was made stands at its place when the work on it is over. -/
theorem stands_of_workOn (hw : fs.WellFormed) (htools : p.ToolsStay host fs)
    (h : host.makeWorkingCopy p.request p.settings fs = (.ok copy, hs)) :
    ∃ skip gs W, p.placeCopy host fs = (.ok (skip, copy), gs) ∧ gs.WellFormed ∧
      gs.lookup host.cwd copy.path false = .ok (.vacant W) ∧ Stands gs hs W ∧
      (host.StaysIn p.tools.analyzer W ∧ host.StaysIn p.tools.exporter W) ∧
      Stands gs (p.workOn host copy hs).2 W := by
  obtain ⟨skip, gs, W, hplace, hwg, hv, hstands⟩ := Host.stands_of_copyProject hw h
  obtain ⟨m, hm⟩ := hstands.lookup hv
  have hstay := htools copy hs W m h (stat_eq_ok_iff.mpr hm)
  refine ⟨skip, gs, W, hplace, hwg, hv, hstands, hstay, ?_⟩
  exact hstands.workOn (fun q hq => hwg.get?_eq_none_of_vacant hv hq) (List.prefix_refl W) hstay.1
    hstay.2 copy

/-- Work on a copy is not the copying of it. -/
theorem outcome_ne_copying {result : Except StageError (FoundIndex × Exported)} {d : Disposal}
    {outcome : Except StageError Account} (h : p.workOn host copy fs = (result, gs))
    (hreports : p.Reports copy d outcome result) (c : CopyError) :
    outcome ≠ .error (.copying c) := by
  intro hout
  cases result with
  | ok r =>
    obtain ⟨warnings, hok⟩ := hreports
    rw [hok] at hout
    cases hout
  | error e =>
    have he : outcome = .error e := hreports
    rw [he] at hout
    obtain rfl := Except.error.inj hout
    rcases hindex : host.makeIndex copy p.indexerCall fs with ⟨e | found, hs⟩
    · rw [workOn_of_unindexed hindex] at h
      cases h
    · rw [workOn_of_indexed hindex] at h
      split at h <;> cases h

/-! ## Temporary directories -/

/-- A copy that is given up leaves no temporary directory, if it can be removed. -/
theorem get?_of_abandoned {c : CopyError} (hw : fs.WellFormed) (hfree : p.AbandonsFreely host fs)
    (hplace : p.placeCopy host fs = (.ok (skip, copy), gs))
    (htemp : Host.InTemp host fs gs copy root F name)
    (hmade : host.makeWorkingCopy p.request p.settings fs = (.error c, hs)) : hs.get? F = none := by
  have hroot : copy.placement = .temporary root := congrArg WorkingCopy.placement htemp.copy_eq
  rw [makeWorkingCopy_of_placed hplace] at hmade
  obtain ⟨ks, hcopy, hgive⟩ := Host.fillWorkingCopy_eq_error hmade
  obtain ⟨ls, hremoved⟩ := hfree skip copy gs root c ks hplace hroot hcopy
  rw [Host.abandon_of_temporary hroot hremoved] at hgive
  obtain ⟨-, rfl⟩ := Prod.mk.inj hgive
  have hfilled := htemp.stands_copyBelow hw skip p.request.source
  rw [hcopy] at hfilled
  exact hfilled.get?_of_removeTree htemp.vacant hremoved

/-- A temporary directory stands when the work on the copy in it is over. -/
theorem stands_temporary (hw : fs.WellFormed) (htools : p.ToolsStay host fs)
    (hplace : p.placeCopy host fs = (.ok (skip, copy), gs))
    (htemp : Host.InTemp host fs gs copy root F name)
    (hmade : host.makeWorkingCopy p.request p.settings fs = (.ok copy, hs)) :
    Stands fs (p.workOn host copy hs).2 F := by
  obtain ⟨skip', gs', W, hplace', -, hv, -, ⟨hanalyzer, hexporter⟩, -⟩ :=
    stands_of_workOn hw htools hmade
  rw [hplace] at hplace'
  obtain ⟨hcopy', rfl⟩ := Prod.mk.inj hplace'
  have hFW : F <+: W := by
    have hpath : copy.path = root.child name := congrArg WorkingCopy.path htemp.copy_eq
    rw [hpath] at hv
    rw [htemp.place_eq hv]
    exact List.prefix_append F [name]
  have hfilled := htemp.stands_copyBelow hw skip p.request.source
  rw [makeWorkingCopy_of_placed hplace] at hmade
  rw [(Host.fillWorkingCopy_eq_ok hmade).2] at hfilled
  exact hfilled.workOn (htemp.get?_eq_none hw) hFW hanalyzer hexporter copy

/-- The temporary directory that was made for a copy is gone at the end, or there is a warning about
it. After a failure to copy it is gone in any case. -/
theorem temporary_cleaned (hw : fs.WellFormed) (htools : p.ToolsStay host fs)
    (hfree : p.AbandonsFreely host fs) (hplace : p.placeCopy host fs = (.ok (skip, copy), gs))
    (htemp : Host.InTemp host fs gs copy root F name) :
    (p.request.keepCopy = false → (p.run host fs).files.get? F = none ∨
      ∃ e, stuckWarning root e ∈ (p.run host fs).events) ∧
    ∀ e, (p.run host fs).outcome = .error (.copying e) → (p.run host fs).files.get? F = none := by
  rcases p.run_cases host fs with ⟨c, hmade, hout⟩ |
    ⟨copy', hs, result, ks, hmade, hwork, hfiles, ⟨before, hevents⟩, hreports⟩
  · have hgone := get?_of_abandoned hw hfree hplace htemp hmade
    exact ⟨fun _ => Or.inl hgone, fun _ _ => hgone⟩
  · obtain rfl : copy' = copy := by
      rw [makeWorkingCopy_of_placed hplace] at hmade
      exact (Host.fillWorkingCopy_eq_ok hmade).1
    have hroot : copy'.placement = .temporary root := congrArg WorkingCopy.placement htemp.copy_eq
    have hworked := stands_temporary hw htools hplace htemp hmade
    rw [hwork] at hworked
    refine ⟨fun hkeep => ?_, fun e hcopying => ?_⟩
    · rw [hkeep, Host.dispose_of_temporary hroot] at hfiles hevents
      cases hremoved : ks.removeTree host.cwd root with
      | ok ls =>
        rw [hremoved] at hfiles
        rw [hfiles]
        exact Or.inl (hworked.get?_of_removeTree htemp.vacant hremoved)
      | error e =>
        rw [hremoved] at hevents
        refine Or.inr ⟨e, ?_⟩
        rw [hevents]
        exact List.mem_append_right _ (List.mem_singleton_self _)
    · exact absurd hcopying (outcome_ne_copying hwork hreports e)

/-! ## Copies that are kept -/

/-- A copy that is to be kept, or has a destination, is where it was made. -/
theorem copy_kept (hw : fs.WellFormed) (htools : p.ToolsStay host fs)
    (hkeep : p.request.keepCopy = true ∨ p.request.destination ≠ none) :
    (∃ e, (p.run host fs).outcome = .error (.copying e)) ∨
      ∃ copy gs, host.makeWorkingCopy p.request p.settings fs = (.ok copy, gs) ∧
        SameDir gs (p.run host fs).files host.cwd copy.path := by
  rcases p.run_cases host fs with ⟨c, -, hout⟩ |
    ⟨copy, hs, result, ks, hmade, hwork, hfiles, -, -⟩
  · exact Or.inl ⟨c, hout⟩
  · obtain ⟨skip, gs, W, hplace, hwg, hv, hstands, -, hworked⟩ := stands_of_workOn hw htools hmade
    have hkept : (host.dispose copy p.request.keepCopy ks).2 = ks := by
      refine Host.dispose_of_kept (hkeep.imp_right fun hdest => ?_)
      obtain ⟨given, hgiven⟩ := Option.ne_none_iff_exists'.mp hdest
      obtain ⟨d, -, -, hd, -⟩ := Host.isDir_of_prepareCopy hw hgiven hplace
      exact ⟨d, hd⟩
    rw [hkept] at hfiles
    rw [hwork] at hworked
    obtain ⟨m, hm⟩ := hstands.lookup hv
    obtain ⟨m', hm'⟩ := hworked.lookup hv
    refine Or.inr ⟨copy, hs, hmade, W, m, m', stat_eq_ok_iff.mpr hm, ?_⟩
    rw [hfiles]
    exact stat_eq_ok_iff.mpr hm'

/-- A destination below which a place has been made is there at the end of every run. -/
theorem destination_kept (hw : fs.WellFormed) (htools : p.ToolsStay host fs)
    (hdest : p.request.destination ≠ none) (hplace : p.placeCopy host fs = (.ok (skip, copy), gs)) :
    ∃ d, copy.placement = .chosen d ∧ SameDir gs (p.run host fs).files host.cwd d := by
  obtain ⟨given, hgiven⟩ := Option.ne_none_iff_exists'.mp hdest
  obtain ⟨d, D, m, hd, hD⟩ := Host.isDir_of_prepareCopy hw hgiven hplace
  have hlook : ∃ m', (p.run host fs).files.lookup host.cwd d true = .ok (.entry D (.dir m')) := by
    rcases p.run_cases host fs with ⟨c, hmade, -⟩ |
      ⟨copy', hs, result, ks, hmade, hwork, hfiles, -, -⟩
    · -- What has been copied of it is left.
      rw [makeWorkingCopy_of_placed hplace] at hmade
      obtain ⟨ks, hcopy, hgive⟩ := Host.fillWorkingCopy_eq_error hmade
      rw [Host.abandon_of_chosen hd] at hgive
      obtain ⟨-, rfl⟩ := Prod.mk.inj hgive
      have hways := Host.keepsWays_of_prepareCopy hw hplace skip p.request.source
      rw [hcopy] at hways
      exact hways.lookup_dir hD
    · obtain ⟨skip', gs', W, hplace', -, -, -, -, hworked⟩ := stands_of_workOn hw htools hmade
      rw [hplace] at hplace'
      obtain ⟨hcopy', rfl⟩ := Prod.mk.inj hplace'
      obtain ⟨-, rfl⟩ := Prod.mk.inj (Except.ok.inj hcopy')
      rw [hwork] at hworked
      rw [hfiles, Host.dispose_of_kept (Or.inr ⟨d, hd⟩)]
      exact hworked.ways.lookup_dir hD
  obtain ⟨m', hm'⟩ := hlook
  exact ⟨d, hd, D, m, m', stat_eq_ok_iff.mpr hD, stat_eq_ok_iff.mpr hm'⟩

/-! ## The contract -/

/-- What a run leaves, whichever stage it ends in. Without a destination, the temporary directory
that it made is gone or there is a warning about it, unless the copy is to be kept, and it is gone
after a failure to copy. A copy that is to be kept, or has a destination, is there, and so is the
destination, which no cleanup touches. -/
theorem cleaned_up (hw : fs.WellFormed) (htools : p.ToolsStay host fs)
    (hfree : p.AbandonsFreely host fs) :
    (p.request.destination = none →
      (∃ e, p.placeCopy host fs = (.error e, fs) ∧ (p.run host fs).files = fs ∧
        (p.run host fs).outcome = .error (.copying e)) ∨
      ∃ skip copy gs root F, p.placeCopy host fs = (.ok (skip, copy), gs) ∧
        copy.placement = .temporary root ∧
        fs.lookup host.cwd (withoutEndSlashes root) false = .ok (.vacant F) ∧
        gs.isDirAt F = true ∧
        (p.request.keepCopy = false → (p.run host fs).files.get? F = none ∨
          ∃ e, stuckWarning root e ∈ (p.run host fs).events) ∧
        ∀ e, (p.run host fs).outcome = .error (.copying e) →
          (p.run host fs).files.get? F = none) ∧
    (p.request.keepCopy = true ∨ p.request.destination ≠ none →
      (∃ e, (p.run host fs).outcome = .error (.copying e)) ∨
      ∃ copy gs, host.makeWorkingCopy p.request p.settings fs = (.ok copy, gs) ∧
        SameDir gs (p.run host fs).files host.cwd copy.path) ∧
    (p.request.destination ≠ none → ∀ skip copy gs,
      p.placeCopy host fs = (.ok (skip, copy), gs) →
        ∃ d, copy.placement = .chosen d ∧ SameDir gs (p.run host fs).files host.cwd d ∧
          ∀ ks, (∀ keepCopy, (host.dispose copy keepCopy ks).2 = ks) ∧
            ∀ e, host.abandon copy e ks = (.error e, ks)) := by
  refine ⟨fun hdest => ?_, copy_kept hw htools, fun hdest skip copy gs hplace => ?_⟩
  · rcases hplace : p.placeCopy host fs with ⟨e | ⟨skip, copy⟩, gs⟩
    · obtain rfl := Host.prepareCopy_eq_error hdest hplace
      have hmade := makeWorkingCopy_of_unplaced hplace
      rcases p.run_cases host gs with ⟨c, hmade', hout⟩ | ⟨copy, hs, result, ks, hmade', -⟩
      · rw [hmade] at hmade'
        obtain ⟨hc, hfiles⟩ := Prod.mk.inj hmade'
        rw [← Except.error.inj hc] at hout
        exact Or.inl ⟨e, rfl, hfiles.symm, hout⟩
      · rw [hmade] at hmade'
        cases hmade'
    · obtain ⟨name, hname, hmade⟩ := Host.prepareCopy_eq_ok hplace
      obtain ⟨root, F, htemp⟩ := Host.inTemp_of_placeWorkingCopy hw hname hdest hmade
      obtain ⟨hcleaned, hfailed⟩ := temporary_cleaned hw htools hfree hplace htemp
      exact Or.inr ⟨skip, copy, gs, root, F, rfl, congrArg WorkingCopy.placement htemp.copy_eq,
        htemp.vacant, (htemp.stands hw).isDirAt, hcleaned, hfailed⟩
  · obtain ⟨d, hd, hsame⟩ := destination_kept hw htools hdest hplace
    exact ⟨d, hd, hsame, fun ks => ⟨fun _ => Host.dispose_of_kept (Or.inr ⟨d, hd⟩),
      fun _ => Host.abandon_of_chosen hd⟩⟩

/-! ## An analysis that fails -/

theorem toolsStay_idleHost (p : Job) (fs : FileSystem) : p.ToolsStay Host.idleHost fs := by
  have hstay : ∀ tool W, Host.idleHost.StaysIn tool W := by
    intro tool W command stdout limit gs _ hw
    have hsame : (Host.idleHost.run tool.name command stdout limit gs).2 = gs := by
      rcases Host.idleHost.run_snd tool.name command stdout limit gs with h |
        ⟨launch, allowance, -, -, h⟩
      · exact h
      · exact h
    rw [hsame]
    exact ⟨hw, fun q _ hq => hq, fun q t _ ht => ht⟩
  intro copy gs W m _ _
  exact ⟨hstay p.tools.analyzer W, hstay p.tools.exporter W⟩

/-- Where the analyzer fails, nothing is left of the directory that was made for the copy. -/
theorem failed_analysis_cleaned :
    (notesJob.run Host.idleHost (notesWith [] 3)).outcome =
        .error (.analyzing (.unsuccessful (.exited 1) "")) ∧
      (notesJob.placeCopy Host.idleHost (notesWith [] 3)).2.isDirAt ["tmp", "scip_analysis_"] =
        true ∧
      (notesJob.run Host.idleHost (notesWith [] 3)).files.get? ["tmp", "scip_analysis_"] =
        none := by
  have hfails : (notesJob.run Host.idleHost (notesWith [] 3)).outcome =
      .error (.analyzing (.unsuccessful (.exited 1) "")) := by decide +kernel
  -- The run warns of nothing, so that the directory is not one that was stuck.
  have hquiet : ∀ e, stuckWarning ⟨"/tmp/scip_analysis_"⟩ e ∉
      (notesJob.run Host.idleHost (notesWith [] 3)).events := by
    intro e hstuck
    have hnone : ∀ event ∈ (notesJob.run Host.idleHost (notesWith [] 3)).events,
        event.warning? = none := by decide +kernel
    exact nomatch hnone _ hstuck
  have hplaced : (notesJob.placeCopy Host.idleHost (notesWith [] 3)).1.map Prod.snd =
      .ok ⟨⟨"/tmp/scip_analysis_/proj"⟩, .temporary ⟨"/tmp/scip_analysis_"⟩⟩ := by decide +kernel
  have hmade : (Host.idleHost.makeWorkingCopy notesJob.request notesJob.settings
      (notesWith [] 3)).1.isOk = true := by decide +kernel
  have hv : (notesWith [] 3).lookup Host.idleHost.cwd
      (withoutEndSlashes ⟨"/tmp/scip_analysis_"⟩) false =
        .ok (.vacant ["tmp", "scip_analysis_"]) := by decide +kernel
  have hfree : notesJob.AbandonsFreely Host.idleHost (notesWith [] 3) := by
    intro skip copy gs root e hs hplace _ hcopy
    rw [makeWorkingCopy_of_placed hplace] at hmade
    rcases Host.idleHost.fillWorkingCopy_cases skip notesJob.request.source copy gs with
      ⟨ks, hok, -⟩ | ⟨e', ks, -, hgive⟩
    · rw [hcopy] at hok
      cases hok
    · rw [hgive, Host.abandon_fst] at hmade
      cases hmade
  obtain ⟨htemp, -, -⟩ := cleaned_up (by decide) (toolsStay_idleHost notesJob _) hfree
  rcases htemp rfl with ⟨e, hplace, -, -⟩ |
    ⟨skip, copy, gs, root, F, hplace, hroot, hvacant, hmadeDir, hcleaned, -⟩
  · rw [hplace] at hplaced
    cases hplaced
  · rw [hplace] at hplaced ⊢
    obtain rfl : copy = _ := Except.ok.inj hplaced
    obtain rfl := Placement.temporary.inj hroot
    obtain rfl := Found.vacant.inj (Except.ok.inj (hv.symm.trans hvacant))
    refine ⟨hfails, hmadeDir, ?_⟩
    rcases hcleaned rfl with hgone | ⟨e, hstuck⟩
    · exact hgone
    · exact absurd hstuck (hquiet e)

end Job

end CodeIndex

import CodeIndex.Export
import CodeIndex.Proofs.Effect
import CodeIndex.Proofs.FileSystem.Writing

/-!
# The guard of the index

An export empties its output before the exporter starts, so it refuses an output that is the index
itself. Whether it is, is asked before the missing directories above the output are made, and an
output that leads nowhere at that time is taken for another file.

* `Host.openExport_cases` : what opening an output comes to;
* `Host.OpensFile` : opening the output ends at a file that is there;
* `Host.isOneFile_iff` : which of the outputs that open the index the guard can tell;
* `Host.exists_indexParts` : an index that is a file can be told from its directory and its name;
* `Host.index_untouched_iff` : the index is safe exactly from the outputs that the guard can tell.
-/

namespace CodeIndex

open FileSystem

namespace Host

variable {host : Host} {fs gs : FileSystem} {index o : Path} {output : Option Path}
  {call : ExporterCall} {i : Place} {id mode : Nat} {bytes : List UInt8}

/-! ## Opening an output -/

/-- The file system with the directories above an output, as far as they could be made. -/
def withParents (host : Host) (o : Path) (fs : FileSystem) : FileSystem × Option Errno :=
  match o.parent? with
  | some parent => fs.createDirs host.cwd parent
  | none => (fs, none)

theorem dirsAdded_withParents (host : Host) (o : Path) (fs : FileSystem) :
    DirsAdded fs (host.withParents o fs).1 := by
  unfold withParents
  split
  · exact dirsAdded_createDirs fs host.cwd _
  · exact DirsAdded.refl fs

/-- Opening an output makes the directories above it and then opens it. -/
theorem openExport_apply (host : Host) (o : Path) (fs : FileSystem) :
    host.openExport o fs = match host.withParents o fs with
      | (gs, some e) => (.error (.notOpened o e), gs)
      | (gs, none) =>
        match gs.openWrite host.cwd o fileMode with
        | .ok (hs, sink) => (.ok sink, hs)
        | .error e => (.error (.notOpened o e), gs) := by
  unfold openExport withParents
  cases o.parent? with
  | none => rfl
  | some parent =>
    dsimp only
    rw [Effect.bind_apply, Effect.attempt]
    rcases fs.createDirs host.cwd parent with ⟨gs, _ | e⟩ <;> rfl

/-- Either only directories come of it, or the output is open. -/
theorem openExport_cases (host : Host) (o : Path) (fs : FileSystem) :
    (∃ e, host.openExport o fs = (.error (.notOpened o e), (host.withParents o fs).1)) ∨
    ∃ hs sink, (host.withParents o fs).1.openWrite host.cwd o fileMode = .ok (hs, sink) ∧
      host.openExport o fs = (.ok sink, hs) := by
  rw [openExport_apply]
  rcases host.withParents o fs with ⟨gs, _ | e⟩
  · cases h : gs.openWrite host.cwd o fileMode with
    | error e => exact Or.inl ⟨e, by simp [h]⟩
    | ok r => exact Or.inr ⟨r.1, r.2, rfl, by simp [h]⟩
  · exact Or.inl ⟨e, rfl⟩

/-- Opening an output ends at the file with the identity. -/
def OpensFile (host : Host) (o : Path) (fs : FileSystem) (id : Nat) : Prop :=
  (host.openExport o fs).1 = .ok (.file id)

/-- A file that is open and was there before is where the output leads. -/
theorem OpensFile.lookup (hw : fs.WellFormed) (hi : fs.get? i = some (.file id mode bytes))
    (h : host.OpensFile o fs id) : ∃ p m bs,
      (host.withParents o fs).1.lookup host.cwd o true = .ok (.entry p (.file id m bs)) ∧
        (host.openExport o fs).2 = (host.withParents o fs).1.truncate id := by
  unfold OpensFile at h
  rcases host.openExport_cases o fs with ⟨e, he⟩ | ⟨hs, sink, hopen, hok⟩
  · rw [he] at h
    cases h
  · rw [hok] at h ⊢
    obtain rfl := Except.ok.inj h
    rcases openWrite_eq_ok hopen with ⟨d, n, -, -, -, -, -, hid⟩ | ⟨p, id', m, bs, hp, rfl, hid⟩ |
      ⟨p, kind, -, -, hid⟩
    · -- A new file has an identity that no file had.
      have hlt := hw.id_lt hi
      have hnext := (host.dirsAdded_withParents o fs).next_eq
      rw [OpenFile.file.injEq] at hid
      omega
    · obtain rfl := OpenFile.file.inj hid
      exact ⟨p, m, bs, hp, rfl⟩
    · cases hid

/-- Unless it is the file that is opened, a file is as before. -/
theorem get?_openExport (hi : fs.get? i = some (.file id mode bytes))
    (h : ¬ host.OpensFile o fs id) :
    (host.openExport o fs).2.get? i = some (.file id mode bytes) := by
  have hdirs := host.dirsAdded_withParents o fs
  have hi' := hdirs.get?_eq hi
  unfold OpensFile at h
  rcases host.openExport_cases o fs with ⟨e, he⟩ | ⟨hs, sink, hopen, hok⟩
  · rw [he]
    exact hi'
  · rw [hok] at h ⊢
    rcases openWrite_eq_ok hopen with ⟨d, n, -, -, -, hv, rfl, -⟩ | ⟨p, id', m, bs, -, rfl, rfl⟩ |
      ⟨p, kind, -, rfl, -⟩
    · have hne : i ≠ d ++ [n] := fun heq => by
        rw [← heq, hi'] at hv
        cases hv
      dsimp only
      rw [get?_putNewFile (by simp), if_neg hne, hi']
    · have hne : id ≠ id' := fun heq => h (by rw [heq])
      dsimp only
      rw [get?_truncate, hi', Option.map_some, Entry.mapFile_of_ne (by simpa [Entry.fileId?] using hne)]
    · exact hi'

/-- The file that is opened is empty from then on. -/
theorem OpensFile.get?_eq (hw : fs.WellFormed) (hi : fs.get? i = some (.file id mode bytes))
    (h : host.OpensFile o fs id) :
    (host.openExport o fs).2.get? i = some (.file id mode []) := by
  obtain ⟨p, m, bs, -, htrunc⟩ := h.lookup hw hi
  rw [htrunc, get?_truncate, (host.dirsAdded_withParents o fs).get?_eq hi]
  simp [Entry.mapFile]

/-! ## The guard -/

/-- The guard can tell that an output is the index: it is spelled so, or it leads somewhere before
any directory is made. -/
def Recognised (host : Host) (fs : FileSystem) (index o : Path) : Prop :=
  o.sameSteps index = true ∨ fs.pathExists host.cwd o = true

/-- An output that opens the index is found to be the index exactly if the guard can tell. -/
theorem isOneFile_iff (hw : fs.WellFormed) (hs : fs.SingleNamed)
    (hindex : fs.stat host.cwd index true = .ok (i, .file id mode bytes))
    (h : host.OpensFile o fs id) :
    fs.isOneFile host.cwd o index = true ↔ host.Recognised fs index o := by
  have hi := get?_of_lookup (stat_eq_ok_iff.mp hindex)
  unfold isOneFile Recognised
  rw [Bool.or_eq_true]
  refine or_congr Iff.rfl ?_
  rw [pathExists_iff, canonical, canonical, hindex]
  constructor
  · intro hsame
    cases ho : fs.stat host.cwd o true with
    | error e => simp [ho, Except.map] at hsame
    | ok r => exact ⟨r.1, r.2, rfl⟩
  · rintro ⟨p, e, ho⟩
    -- What the output leads to is still there when it is opened, so it is what is opened.
    obtain ⟨p', m, bs, hp', -⟩ := h.lookup hw hi
    have hlook := stat_eq_ok_iff.mp ho
    have hkept := lookup_mono (fun q x => (host.dirsAdded_withParents o fs).get?_eq) hlook
    rw [hkept, Except.ok.injEq, Found.entry.injEq] at hp'
    obtain ⟨rfl, rfl⟩ := hp'
    have hpi : p = i := hs.eq (get?_of_lookup hlook) hi
    simp [ho, hpi, Except.map]

/-- An index that is a file is in a directory and has a name. -/
theorem exists_indexParts (hw : fs.WellFormed)
    (hindex : fs.stat host.cwd index true = .ok (i, .file id mode bytes)) :
    ∃ parts, host.indexParts fs index = .ok parts := by
  obtain ⟨hne, -, k, -, hwalk⟩ := lookup_eq_ok_iff.mp (stat_eq_ok_iff.mp hindex)
  cases hname : index.fileName? with
  | none =>
    obtain ⟨ns, n, hsteps, hdots⟩ := Path.steps_of_fileName?_eq_none hne hname
    rw [hsteps] at hwalk
    cases hwalk.isDir_of_dots hw hdots
  | some name =>
    obtain ⟨dir, hdir⟩ := Path.exists_parent?_of_fileName? hname
    have hfile : fs.isFile host.cwd index = true := by
      rw [FileSystem.isFile, entry?, hindex]
      rfl
    refine ⟨(dir, name), ?_⟩
    rw [indexParts, hdir, hname]
    exact if_pos hfile

theorem prepareExport_apply (call : ExporterCall) {parts : Path × String}
    (hparts : host.indexParts fs index = .ok parts)
    (ho : host.exportPath index output call.jsonFileName = .ok o) :
    host.prepareExport index output call fs =
      if fs.isOneFile host.cwd o index then (.error (.overIndex o), fs)
      else match host.openExport o fs with
        | (.ok sink, gs) =>
          (.ok (o, sink, ⟨call.tool.path, ["print", "--json", parts.2], some parts.1⟩), gs)
        | (.error e, gs) => (.error e, gs) := by
  have hlook : Effect.examine (host.indexParts · index) fs = (.ok parts, fs) := by
    rw [Effect.examine, hparts]
  have hpath : Effect.examine (fun _ => host.exportPath index output call.jsonFileName) fs =
      (.ok o, fs) := by
    rw [Effect.examine, ho]
  unfold prepareExport
  rw [Effect.bind_of_ok _ hlook]
  dsimp only
  rw [Effect.bind_of_ok _ hpath, Effect.bind_apply, guardIndex]
  split_ifs with hone
  · rfl
  · dsimp only
    rw [Effect.bind_apply]
    rcases host.openExport o fs with ⟨_ | _, _⟩ <;> rfl

/-- Without a path for the output, nothing happens. -/
theorem prepareExport_of_error (call : ExporterCall) {parts : Path × String} {e : ExportError}
    (hparts : host.indexParts fs index = .ok parts)
    (ho : host.exportPath index output call.jsonFileName = .error e) :
    host.prepareExport index output call fs = (.error e, fs) := by
  have hlook : Effect.examine (host.indexParts · index) fs = (.ok parts, fs) := by
    rw [Effect.examine, hparts]
  unfold prepareExport
  rw [Effect.bind_of_ok _ hlook]
  refine Effect.bind_of_error _ ?_
  rw [Effect.examine, ho]

/-- What is made of the output when the exporter has ended. -/
theorem settleExport_apply (host : Host) (o : Path) (ended : Except ChildError Captured)
    (fs : FileSystem) : host.settleExport o ended fs = match ended with
      | .error e => (.error (.child e), (dropIfEmpty host.cwd o fs).2)
      | .ok out =>
        if out.status.success then
          match host.measureExport o fs with
          | (.error e, gs) => (.error e, gs)
          | (.ok bytes, gs) => (.ok ⟨o, bytes, out.stderr⟩, gs)
        else
          (.error (.unsuccessful out.status out.stderr
            (if (dropIfEmpty host.cwd o fs).1.getD 0 > 0 then some o else none)),
            (dropIfEmpty host.cwd o fs).2) := by
  unfold settleExport
  cases ended with
  | error e => rfl
  | ok out =>
    dsimp only
    split
    · rw [Effect.bind_apply]
      rcases host.measureExport o fs with ⟨_ | _, _⟩ <;> rfl
    · rfl

/-- Measuring finds a size, or that there is none or nothing in the output. -/
theorem measureExport_cases (host : Host) (o : Path) (fs : FileSystem) :
    (∃ e, host.measureExport o fs = (.error (.unmeasured o e), fs)) ∨
    (∃ gs, host.measureExport o fs = (.error (.nothingWritten o), gs)) ∨
    ∃ bytes, host.measureExport o fs = (.ok bytes, fs) ∧ fs.size host.cwd o = .ok bytes ∧
      bytes ≠ 0 := by
  unfold measureExport
  cases hsize : fs.size host.cwd o with
  | error e => exact Or.inl ⟨e, rfl⟩
  | ok bytes =>
    dsimp only
    by_cases hzero : bytes = 0
    · rw [if_pos hzero]
      cases fs.removeFile host.cwd o with
      | error e => exact Or.inr (Or.inl ⟨fs, rfl⟩)
      | ok gs => exact Or.inr (Or.inl ⟨gs, rfl⟩)
    · rw [if_neg hzero]
      exact Or.inr (Or.inr ⟨bytes, rfl, rfl, hzero⟩)

/-- Once the exporter has been started, the output is not taken for the index any more. -/
theorem settleExport_ne_overIndex (ended : Except ChildError Captured) (p : Path) :
    host.settleExport o ended fs ≠ (.error (.overIndex p), gs) := by
  intro h
  rw [settleExport_apply] at h
  split at h
  · cases h
  · split at h
    · rcases host.measureExport_cases o fs with ⟨e, hm⟩ | ⟨hs, hm⟩ | ⟨bytes, hm, -⟩ <;>
        rw [hm] at h <;> cases h
    · cases h

/-- With an output whose path can be told, the index is as it was until the exporter starts, and the
output is refused without a trace if it would open the index, exactly if the guard can tell it then.
If it cannot, the index is emptied. -/
theorem untouched_iff_recognised (hw : fs.WellFormed) (hs : fs.SingleNamed)
    (hindex : fs.stat host.cwd index true = .ok (i, .file id mode bytes))
    (ho : host.exportPath index output call.jsonFileName = .ok o) :
    ((host.prepareExport index output call fs).2.get? i = some (.file id mode bytes) ∧
        (host.OpensFile o fs id →
          host.exportJson index output call fs = (.error (.overIndex o), fs)) ↔
      (host.OpensFile o fs id → host.Recognised fs index o)) ∧
    (host.OpensFile o fs id → ¬ host.Recognised fs index o →
      (host.prepareExport index output call fs).2.get? i = some (.file id mode [])) := by
  have hi := get?_of_lookup (stat_eq_ok_iff.mp hindex)
  obtain ⟨parts, hparts⟩ := exists_indexParts hw hindex
  have hprepare := prepareExport_apply call hparts ho
  by_cases hone : fs.isOneFile host.cwd o index = true
  · -- The output is refused.
    rw [if_pos hone] at hprepare
    have hexport : host.exportJson index output call fs = (.error (.overIndex o), fs) :=
      Effect.bind_of_error _ hprepare
    have hknown : host.OpensFile o fs id → host.Recognised fs index o :=
      fun h => (isOneFile_iff hw hs hindex h).mp hone
    refine ⟨iff_of_true ⟨?_, fun _ => hexport⟩ hknown, fun h hnot => absurd (hknown h) hnot⟩
    rw [hprepare]
    exact hi
  · rw [if_neg hone] at hprepare
    have hsnd : (host.prepareExport index output call fs).2 = (host.openExport o fs).2 := by
      rw [hprepare]
      rcases host.openExport o fs with ⟨_ | _, _⟩ <;> rfl
    rw [hsnd]
    by_cases hopens : host.OpensFile o fs id
    · -- The guard could not tell, and the exporter is started on an index that is empty.
      have hunknown : ¬ host.Recognised fs index o :=
        fun hr => hone ((isOneFile_iff hw hs hindex hopens).mpr hr)
      refine ⟨iff_of_false (fun h => ?_) fun h => hunknown (h hopens),
        fun _ _ => hopens.get?_eq hw hi⟩
      have hexport := h.2 hopens
      obtain ⟨gs, hgs⟩ : ∃ gs, host.openExport o fs = (.ok (.file id), gs) :=
        ⟨_, Prod.ext hopens rfl⟩
      rw [hgs] at hprepare
      unfold exportJson at hexport
      rw [Effect.bind_of_ok _ hprepare] at hexport
      exact settleExport_ne_overIndex _ _ hexport
    · exact ⟨iff_of_true ⟨get?_openExport hi hopens, fun h => absurd h hopens⟩
        fun h => absurd h hopens, fun h => absurd h hopens⟩

/-- Until the exporter starts, the index is as it was, and an output that would open it is refused
without a trace, exactly if the guard can tell such an output. If it cannot, the index is emptied. -/
theorem index_untouched_iff (hw : fs.WellFormed) (hs : fs.SingleNamed)
    (hindex : fs.stat host.cwd index true = .ok (i, .file id mode bytes)) :
    ((host.prepareExport index output call fs).2.get? i = some (.file id mode bytes) ∧
        (∀ o, host.exportPath index output call.jsonFileName = .ok o → host.OpensFile o fs id →
          host.exportJson index output call fs = (.error (.overIndex o), fs)) ↔
      ∀ o, host.exportPath index output call.jsonFileName = .ok o → host.OpensFile o fs id →
        host.Recognised fs index o) ∧
    ∀ o, host.exportPath index output call.jsonFileName = .ok o → host.OpensFile o fs id →
      ¬ host.Recognised fs index o →
        (host.prepareExport index output call fs).2.get? i = some (.file id mode []) := by
  cases ho : host.exportPath index output call.jsonFileName with
  | error e =>
    obtain ⟨parts, hparts⟩ := exists_indexParts hw hindex
    rw [prepareExport_of_error call hparts ho]
    refine ⟨iff_of_true ⟨get?_of_lookup (stat_eq_ok_iff.mp hindex), fun o h => ?_⟩ fun o h => ?_,
      fun o h => ?_⟩ <;> cases h
  | ok o =>
    obtain ⟨hiff, hempty⟩ := untouched_iff_recognised hw hs hindex ho
    simp only [Except.ok.injEq, forall_eq']
    exact ⟨hiff, hempty⟩

/-! ## Two outputs that lead to an index -/

/-- A working copy with an index and a link to it. -/
def indexedFiles : FileSystem where
  entries := [(["work"], .dir 0o755), (["work", "ws"], .dir 0o755),
    (["work", "ws", "index.scip"], .file 0 0o644 [66, 73, 78, 65, 82, 89]),
    (["work", "ws", "out.json"], .link ⟨"index.scip"⟩)]
  next := 1

/-- How an exporter without a limit is run. -/
def exporterCall : ExporterCall := ⟨⟨.exporter, "exp", ⟨"/bin/exp"⟩⟩, "index_scip.json", none⟩

/-- An output that leads to the index through a link is refused. -/
theorem linked_output_refused :
    idleHost.exportJson ⟨"/work/ws/index.scip"⟩ (some ⟨"/work/ws/out.json"⟩) exporterCall
        indexedFiles = (.error (.overIndex ⟨"/work/ws/out.json"⟩), indexedFiles) := by
  have hopens : idleHost.OpensFile ⟨"/work/ws/out.json"⟩ indexedFiles 0 := by
    unfold OpensFile
    decide +kernel
  have hindex : indexedFiles.stat idleHost.cwd ⟨"/work/ws/index.scip"⟩ true =
      .ok (["work", "ws", "index.scip"], .file 0 0o644 [66, 73, 78, 65, 82, 89]) := by
    decide +kernel
  have ho : idleHost.exportPath ⟨"/work/ws/index.scip"⟩ (some ⟨"/work/ws/out.json"⟩)
      exporterCall.jsonFileName = .ok ⟨"/work/ws/out.json"⟩ := by decide +kernel
  have hknown : ∀ o, idleHost.exportPath ⟨"/work/ws/index.scip"⟩ (some ⟨"/work/ws/out.json"⟩)
      exporterCall.jsonFileName = .ok o → idleHost.OpensFile o indexedFiles 0 →
        idleHost.Recognised indexedFiles ⟨"/work/ws/index.scip"⟩ o := by
    intro o ho' _
    obtain rfl := Except.ok.inj (ho.symm.trans ho')
    exact Or.inr (by decide +kernel)
  exact ((index_untouched_iff (by decide +kernel) (by decide +kernel) hindex).1.mpr hknown).2 _ ho
    hopens

/-- An output below a directory that is yet to be made is not told to be the index. It opens the
index, which is emptied. -/
theorem detoured_output_empties_index :
    idleHost.OpensFile ⟨"/work/ws/new/../index.scip"⟩ indexedFiles 0 ∧
    (idleHost.prepareExport ⟨"/work/ws/index.scip"⟩ (some ⟨"/work/ws/new/../index.scip"⟩)
      exporterCall indexedFiles).2.get? ["work", "ws", "index.scip"] =
        some (.file 0 0o644 []) := by
  unfold OpensFile
  decide +kernel

end Host

end CodeIndex

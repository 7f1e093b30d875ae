import CodeIndex.Proofs.Export.Guard

/-!
# What exports come to

An export that succeeds, and one that fails and names what it has kept, leave the output as the
exporter left it. It holds some bytes then.

* `Host.prepareExport_cases`, `Host.openExport_keeps` : what happens before the exporter starts;
* `Host.Dropped` : the output is as it was, or it is gone;
* `Host.exportJson_eq_ok`, `Host.exportJson_eq_unsuccessful` : what is there when an export ends;
* `Host.prepareExport_eq_ok`, `Host.lookup_of_openExport` : what the output leads to when the
  exporter starts;
* `Host.lookup_of_written` : what it leads to when bytes were written to it.
-/

namespace CodeIndex

open FileSystem

variable {host : Host} {fs gs hs : FileSystem} {index o p : Path} {output : Option Path}
  {call : ExporterCall} {status : ExitStatus} {stderr : String} {sink : OpenFile}
  {command : Command} {exported : Exported} {ended : Except ChildError Captured}

namespace Host

/-- Before the exporter starts, nothing happens or an output is opened. -/
theorem prepareExport_cases (host : Host) (index : Path) (output : Option Path)
    (call : ExporterCall) (fs : FileSystem) :
    (∃ e, host.prepareExport index output call fs = (.error e, fs)) ∨
    ∃ o, host.exportPath index output call.jsonFileName = .ok o ∧
      ((∃ e, host.prepareExport index output call fs = (.error e, (host.openExport o fs).2)) ∨
        ∃ sink command, command.program = call.tool.path ∧ (host.openExport o fs).1 = .ok sink ∧
          host.prepareExport index output call fs =
            (.ok (o, sink, command), (host.openExport o fs).2)) := by
  cases hparts : host.indexParts fs index with
  | error e =>
    refine Or.inl ⟨e, Effect.bind_of_error _ ?_⟩
    rw [Effect.examine, hparts]
  | ok parts =>
    cases ho : host.exportPath index output call.jsonFileName with
    | error e => exact Or.inl ⟨e, prepareExport_of_error call hparts ho⟩
    | ok o =>
      rw [prepareExport_apply call hparts ho]
      split
      · exact Or.inl ⟨_, rfl⟩
      · refine Or.inr ⟨o, rfl, ?_⟩
        rcases host.openExport o fs with ⟨e | sink, gs⟩
        · exact Or.inl ⟨e, rfl⟩
        · exact Or.inr ⟨sink, _, rfl, rfl, rfl⟩

/-- Opening an output leaves everything but files as it was. -/
theorem openExport_keeps (hw : fs.WellFormed) (host : Host) (o : Path) :
    (host.openExport o fs).2.WellFormed ∧
      ∀ q x, fs.get? q = some x → x.fileId? = none → (host.openExport o fs).2.get? q = some x := by
  have hdirs := host.dirsAdded_withParents o fs
  have hwp : (host.withParents o fs).1.WellFormed := by
    unfold withParents
    split
    · exact hw.createDirs host.cwd _
    · exact hw
  rcases host.openExport_cases o fs with ⟨e, he⟩ | ⟨hs, sink, hopen, hok⟩
  · rw [he]
    exact ⟨hwp, fun q x hx _ => hdirs.get?_eq hx⟩
  · rw [hok]
    refine ⟨hwp.openWrite hopen, fun q x hx hid => ?_⟩
    have hx' := hdirs.get?_eq hx
    rcases openWrite_eq_ok hopen with ⟨d, n, -, -, -, hv, rfl, -⟩ | ⟨p, id, m, bs, -, rfl, -⟩ |
      ⟨p, kind, -, rfl, -⟩
    · have hne : q ≠ d ++ [n] := fun heq => by
        rw [← heq, hx'] at hv
        cases hv
      dsimp only
      rw [get?_putNewFile (by simp), if_neg hne, hx']
    · dsimp only
      rw [get?_truncate, hx', Option.map_some, Entry.mapFile_of_ne (by rw [hid]; simp)]
    · exact hx'

/-- Nothing has happened, or what a path leads to holds no bytes and has been removed. -/
def Dropped (host : Host) (o : Path) (fs gs : FileSystem) : Prop :=
  gs = fs ∨ fs.size host.cwd o = .ok 0 ∧ fs.removeFile host.cwd o = .ok gs

theorem dropped_dropIfEmpty (host : Host) (o : Path) (fs : FileSystem) :
    host.Dropped o fs (dropIfEmpty host.cwd o fs).2 := by
  unfold dropIfEmpty
  cases hsize : fs.size host.cwd o with
  | error e => exact Or.inl rfl
  | ok size =>
    dsimp only
    split
    · next hzero =>
      subst hzero
      cases hgone : fs.removeFile host.cwd o with
      | ok gs => exact Or.inr ⟨hsize, hgone⟩
      | error e => exact Or.inl rfl
    · exact Or.inl rfl

/-- Measuring an output removes what dropping it removes. -/
theorem measureExport_snd (host : Host) (o : Path) (fs : FileSystem) :
    (host.measureExport o fs).2 = (dropIfEmpty host.cwd o fs).2 := by
  unfold measureExport dropIfEmpty
  cases fs.size host.cwd o with
  | error e => rfl
  | ok size =>
    dsimp only
    split
    · cases fs.removeFile host.cwd o <;> rfl
    · rfl

/-- Whatever the exporter came to, what holds no bytes is removed. -/
theorem settleExport_snd (host : Host) (o : Path) (ended : Except ChildError Captured)
    (fs : FileSystem) : (host.settleExport o ended fs).2 = (dropIfEmpty host.cwd o fs).2 := by
  rw [settleExport_apply]
  split
  · rfl
  · split
    · rw [← measureExport_snd]
      rcases host.measureExport o fs with ⟨_ | _, _⟩ <;> rfl
    · rfl

/-- When the exporter has ended, nothing happens or what holds no bytes is removed. -/
theorem dropped_settleExport (host : Host) (o : Path) (ended : Except ChildError Captured)
    (fs : FileSystem) : host.Dropped o fs (host.settleExport o ended fs).2 := by
  rw [settleExport_snd]
  exact host.dropped_dropIfEmpty o fs

/-- An export whose output has been opened runs the exporter and looks at what it wrote. -/
theorem exportJson_of_ok {command : Command}
    (h : host.prepareExport index output call fs = (.ok (o, sink, command), gs)) :
    host.exportJson index output call fs =
      host.settleExport o (host.run call.tool.name command (some sink) call.timeout gs).1
        (host.run call.tool.name command (some sink) call.timeout gs).2 := by
  unfold exportJson
  rw [Effect.bind_of_ok _ h]
  rfl

theorem exportJson_of_error {e : ExportError}
    (h : host.prepareExport index output call fs = (.error e, gs)) :
    (host.exportJson index output call fs).2 = gs := by
  unfold exportJson
  rw [Effect.bind_of_error _ h]

/-! ## Exports that end -/

/-- Output that is found not to be empty stays as it is. -/
theorem dropIfEmpty_of_pos (h : (dropIfEmpty host.cwd o fs).1.getD 0 > 0) :
    (dropIfEmpty host.cwd o fs).2 = fs ∧ ∃ n, fs.size host.cwd o = .ok n ∧ 0 < n := by
  unfold dropIfEmpty at h ⊢
  cases hsize : fs.size host.cwd o with
  | error e =>
    rw [hsize] at h
    exact absurd h (Nat.lt_irrefl 0)
  | ok n =>
    rw [hsize] at h
    dsimp only at h ⊢
    by_cases hzero : n = 0
    · rw [if_pos hzero, hzero] at h
      split at h <;> exact absurd h (Nat.lt_irrefl 0)
    · rw [if_neg hzero]
      exact ⟨rfl, n, rfl, Nat.pos_of_ne_zero hzero⟩

/-- A successful exporter has left bytes in the output. -/
theorem settleExport_eq_ok (h : host.settleExport o ended fs = (.ok exported, gs)) :
    gs = fs ∧ exported.output = o ∧ fs.size host.cwd o = .ok exported.bytes ∧
      exported.bytes ≠ 0 := by
  rw [settleExport_apply] at h
  split at h
  · cases h
  · split at h
    · rcases host.measureExport_cases o fs with ⟨e, hm⟩ | ⟨hs, hm⟩ | ⟨bytes, hm, hsize, hne⟩
      · rw [hm] at h
        cases h
      · rw [hm] at h
        cases h
      · rw [hm] at h
        obtain ⟨hok, rfl⟩ := Prod.mk.inj h
        obtain rfl := Except.ok.inj hok
        exact ⟨rfl, rfl, hsize, hne⟩
    · cases h

/-- A failing exporter whose output is said to be kept has left bytes in it. -/
theorem settleExport_eq_unsuccessful
    (h : host.settleExport o ended fs = (.error (.unsuccessful status stderr (some p)), gs)) :
    gs = fs ∧ p = o ∧ ∃ n, fs.size host.cwd o = .ok n ∧ 0 < n := by
  rw [settleExport_apply] at h
  split at h
  · cases h
  · split at h
    · rcases host.measureExport_cases o fs with ⟨e, hm⟩ | ⟨hs, hm⟩ | ⟨bytes, hm, -⟩ <;>
        rw [hm] at h <;> cases h
    · obtain ⟨herr, hfiles⟩ := Prod.mk.inj h
      obtain ⟨-, -, hkept⟩ := ExportError.unsuccessful.inj (Except.error.inj herr)
      split at hkept
      · next hpos =>
        obtain ⟨hsame, hsize⟩ := dropIfEmpty_of_pos hpos
        exact ⟨hfiles.symm.trans hsame, (Option.some.inj hkept).symm, hsize⟩
      · cases hkept

/-- Before the exporter starts, it does not fail. -/
theorem prepareExport_ne_unsuccessful {kept : Option Path} :
    host.prepareExport index output call fs ≠ (.error (.unsuccessful status stderr kept), gs) := by
  intro h
  cases hparts : host.indexParts fs index with
  | error e =>
    have hlook : Effect.examine (host.indexParts · index) fs = (.error e, fs) := by
      rw [Effect.examine, hparts]
    have herr := (Effect.bind_of_error _ hlook).symm.trans h
    obtain rfl := Except.error.inj (Prod.mk.inj herr).1
    unfold indexParts at hparts
    split at hparts
    · split at hparts <;> cases hparts
    · cases hparts
  | ok parts =>
    cases ho : host.exportPath index output call.jsonFileName with
    | error e =>
      rw [prepareExport_of_error call hparts ho] at h
      obtain rfl := Except.error.inj (Prod.mk.inj h).1
      unfold exportPath at ho
      split at ho
      · next q =>
        cases hq : absolutePath host.cwd q with
        | error err =>
          rw [hq] at ho
          cases ho
        | ok q' =>
          rw [hq] at ho
          cases ho
      · cases ho
    | ok q =>
      rw [prepareExport_apply call hparts ho] at h
      split at h
      · cases h
      · rcases host.openExport_cases q fs with ⟨e, he⟩ | ⟨hs, sink, -, hok⟩
        · rw [he] at h
          cases h
        · rw [hok] at h
          cases h

/-- The exporter starts when the output has been opened. -/
theorem prepareExport_eq_ok
    (h : host.prepareExport index output call fs = (.ok (o, sink, command), gs)) :
    command.program = call.tool.path ∧ host.openExport o fs = (.ok sink, gs) := by
  rcases host.prepareExport_cases index output call fs with ⟨e, he⟩ |
    ⟨o', -, ⟨e, he⟩ | ⟨sink', command', hprogram, hsink, hok⟩⟩
  · rw [he] at h
    cases h
  · rw [he] at h
    cases h
  · rw [hok] at h
    obtain ⟨hprepared, rfl⟩ := Prod.mk.inj h
    obtain ⟨rfl, hrest⟩ := Prod.mk.inj (Except.ok.inj hprepared)
    obtain ⟨rfl, rfl⟩ := Prod.mk.inj hrest
    exact ⟨hprogram, Prod.ext hsink rfl⟩

/-- What an output leads to when it has been opened for the exporter: a file without bytes, or a
device. -/
theorem lookup_of_openExport (h : host.openExport o fs = (.ok sink, gs)) :
    (∃ q id m, sink = .file id ∧ gs.lookup host.cwd o true = .ok (.entry q (.file id m []))) ∨
    ∃ q kind, sink = .discard ∧ gs.lookup host.cwd o true = .ok (.entry q (.device kind)) := by
  rcases host.openExport_cases o fs with ⟨e, he⟩ | ⟨hs, sink', hopen, hok⟩
  · rw [he] at h
    cases h
  · rw [hok] at h
    obtain ⟨hsink, rfl⟩ := Prod.mk.inj h
    obtain rfl := Except.ok.inj hsink
    exact lookup_of_openWrite hopen

/-- What it leads to when bytes were written to it: a file of these bytes, or the same device. -/
theorem lookup_of_written {bytes : List UInt8} (hopened : host.openExport o fs = (.ok sink, gs))
    (hwritten : hs.lookup host.cwd o true = (gs.write sink bytes).lookup host.cwd o true) :
    ∃ q, (∃ id m, sink = .file id ∧ gs.lookup host.cwd o true = .ok (.entry q (.file id m [])) ∧
        hs.lookup host.cwd o true = .ok (.entry q (.file id m bytes))) ∨
      ∃ kind, sink = .discard ∧ gs.lookup host.cwd o true = .ok (.entry q (.device kind)) ∧
        hs.lookup host.cwd o true = .ok (.entry q (.device kind)) := by
  rcases lookup_of_openExport hopened with ⟨q, id, m, rfl, hq⟩ | ⟨q, kind, rfl, hq⟩
  · exact ⟨q, Or.inl ⟨id, m, rfl, hq, hwritten.trans (lookup_write hq bytes)⟩⟩
  · exact ⟨q, Or.inr ⟨kind, rfl, hq, hwritten.trans hq⟩⟩

/-- An export that succeeds leaves the output as the exporter left it, which is not empty. -/
theorem exportJson_eq_ok (h : host.exportJson index output call fs = (.ok exported, gs)) :
    ∃ sink command hs,
      host.prepareExport index output call fs = (.ok (exported.output, sink, command), hs) ∧
      gs = (host.run call.tool.name command (some sink) call.timeout hs).2 ∧
      gs.size host.cwd exported.output = .ok exported.bytes ∧ exported.bytes ≠ 0 := by
  rcases hprepare : host.prepareExport index output call fs with ⟨e | ⟨o, sink, command⟩, hs⟩
  · unfold exportJson at h
    rw [Effect.bind_of_error _ hprepare] at h
    cases h
  · rw [exportJson_of_ok hprepare] at h
    obtain ⟨rfl, rfl, hsize, hne⟩ := settleExport_eq_ok h
    exact ⟨sink, command, hs, rfl, rfl, hsize, hne⟩

/-- So does one that fails and says that something was kept. -/
theorem exportJson_eq_unsuccessful
    (h : host.exportJson index output call fs =
      (.error (.unsuccessful status stderr (some o)), gs)) :
    ∃ sink command hs,
      host.prepareExport index output call fs = (.ok (o, sink, command), hs) ∧
      gs = (host.run call.tool.name command (some sink) call.timeout hs).2 ∧
      ∃ n, gs.size host.cwd o = .ok n ∧ 0 < n := by
  rcases hprepare : host.prepareExport index output call fs with ⟨e | ⟨o', sink, command⟩, hs⟩
  · unfold exportJson at h
    rw [Effect.bind_of_error _ hprepare] at h
    obtain ⟨herr, rfl⟩ := Prod.mk.inj h
    obtain rfl := Except.error.inj herr
    exact absurd hprepare prepareExport_ne_unsuccessful
  · rw [exportJson_of_ok hprepare] at h
    obtain ⟨rfl, rfl, hsize⟩ := settleExport_eq_unsuccessful h
    exact ⟨sink, command, hs, rfl, rfl, hsize⟩

end Host

end CodeIndex

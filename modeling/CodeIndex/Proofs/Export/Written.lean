import CodeIndex.Proofs.Export.Outcome
import CodeIndex.Proofs.FileSystem.Passing

/-!
# What exporters have written

An exporter that touches the output only by what it writes to its standard output decides two
things: how it ends, and which bytes there are. What an export comes to is a function of these, and
so is what is left of the output, whatever was there before.

* `FileSystem.OnlyWritten` : an output to which bytes were written and nothing else was done;
* `Host.named_of_onlyWritten`, `Host.get?_dropIfEmpty_of_zero` : what is left of one without bytes;
* `Host.isOneFile_eq_false` : the guard refuses no output that is another file than the index;
* `exportVerdict` : what an export comes to;
* `Host.export_settled` : exports come to that, and leave the bytes or nothing;
* `Host.OnDevice`, `Host.device_export_settled` : a device keeps no bytes, and goes.
-/

namespace CodeIndex

open FileSystem

variable {host : Host} {fs gs hs os ks : FileSystem} {cwd q i O : Place} {o index : Path}
  {x : Entry} {output : Option Path} {call : ExporterCall} {sink : OpenFile}
  {bytes content : List UInt8} {id mode : Nat} {ended : Except ChildError Captured}

namespace FileSystem

/-- Nothing was done to an output but that bytes were written to it where it was open. -/
def OnlyWritten (cwd : Place) (o : Path) (sink : OpenFile) (bytes : List UInt8)
    (fs gs : FileSystem) : Prop :=
  ∀ follow, gs.lookup cwd o follow = (fs.write sink bytes).lookup cwd o follow

/-- A path leads to one entry only. -/
theorem lookup_unique {follow : Bool} {q' : Place} {y : Entry}
    (h : fs.lookup cwd o follow = .ok (.entry q x))
    (h' : fs.lookup cwd o follow = .ok (.entry q' y)) : q = q' ∧ x = y :=
  Found.entry.inj (Except.ok.inj (h.symm.trans h'))

/-- A path names a link exactly if that is what is found without following it. -/
theorem readLink_iff {t : Path} : fs.readLink cwd o = .ok t ↔
    ∃ q, fs.lookup cwd o false = .ok (.entry q (.link t)) := by
  unfold readLink
  constructor
  · intro h
    split at h
    · next q t' hstat =>
      obtain rfl := Except.ok.inj h
      exact ⟨q, stat_eq_ok_iff.mp hstat⟩
    · cases h
    · cases h
  · rintro ⟨q, hq⟩
    rw [stat_eq_ok_iff.mpr hq]

theorem OnlyWritten.lookup {follow : Bool} (h : OnlyWritten cwd o sink bytes fs gs)
    (hq : fs.lookup cwd o follow = .ok (.entry q x)) :
    ∃ y, gs.lookup cwd o follow = .ok (.entry q y) ∧ y.isDir = x.isDir ∧ y.isLink = x.isLink := by
  rw [h follow]
  exact exists_lookup_write hq sink bytes

end FileSystem

namespace Host

/-! ## What is left of an output -/

/-- An output that holds bytes stays. -/
theorem dropIfEmpty_of_ne_zero {n : Nat} (hsize : fs.size host.cwd o = .ok n) (hn : n ≠ 0) :
    dropIfEmpty host.cwd o fs = (some n, fs) := by
  unfold dropIfEmpty
  rw [hsize]
  exact if_neg hn

/-- An output without bytes goes. -/
theorem dropIfEmpty_of_zero (hsize : fs.size host.cwd o = .ok 0)
    (hgone : fs.removeFile host.cwd o = .ok gs) : dropIfEmpty host.cwd o fs = (none, gs) := by
  unfold dropIfEmpty
  rw [hsize]
  dsimp only
  rw [if_pos rfl, hgone]

/-- What an output leads to when it is open is no directory. -/
theorem isDir_of_openExport (hopened : host.openExport o hs = (.ok sink, os))
    (hO : os.lookup host.cwd o true = .ok (.entry O x)) : x.isDir = false := by
  rcases lookup_of_openExport hopened with ⟨q, id, mode, -, hq⟩ | ⟨q, kind, -, hq⟩
  · rw [(lookup_unique hO hq).2]
    rfl
  · rw [(lookup_unique hO hq).2]
    rfl

/-- An output that was only written to is there when the exporter has ended, with these bytes if it
is a file. -/
theorem followed_of_onlyWritten (hopened : host.openExport o hs = (.ok sink, os))
    (hwritten : OnlyWritten host.cwd o sink bytes os ks)
    (hO : os.lookup host.cwd o true = .ok (.entry O x)) :
    ∃ y, ks.lookup host.cwd o true = .ok (.entry O y) ∧ y.isLink = false ∧ y.isDir = false ∧
      ((∃ id mode, y = .file id mode bytes ∧ x.isFile = true) ∨
        (∃ kind, y = .device kind) ∧ x.isFile = false) := by
  obtain ⟨q, ⟨id, m, -, hq, hk⟩ | ⟨kind, -, hq, hk⟩⟩ := lookup_of_written hopened (hwritten true)
  · obtain ⟨rfl, rfl⟩ := lookup_unique hO hq
    exact ⟨.file id m bytes, hk, rfl, rfl, Or.inl ⟨id, m, rfl, rfl⟩⟩
  · obtain ⟨rfl, rfl⟩ := lookup_unique hO hq
    exact ⟨.device kind, hk, rfl, rfl, Or.inr ⟨⟨kind, rfl⟩, rfl⟩⟩

/-- The path of such an output names a link if it did so when it was opened, and else the output. -/
theorem named_of_onlyWritten (hwritten : OnlyWritten host.cwd o sink bytes os ks)
    (hO : os.lookup host.cwd o true = .ok (.entry O x)) :
    ∃ L z, ks.lookup host.cwd o false = .ok (.entry L z) ∧ (z.isLink = true ∨ L = O) ∧
      (z.isLink = true ↔ ∃ t, os.readLink host.cwd o = .ok t) := by
  obtain ⟨L, y, hL, hy⟩ := exists_unfollowed hO
  obtain ⟨z, hz, -, hzlink⟩ := hwritten.lookup hL
  refine ⟨L, z, hz, ?_, ?_⟩
  · rcases hy with hy | ⟨rfl, -⟩
    · exact Or.inl (hzlink.trans hy)
    · exact Or.inr rfl
  · rw [hzlink]
    constructor
    · intro hlink
      obtain ⟨t, rfl⟩ := Entry.isLink_iff.mp hlink
      exact ⟨t, readLink_iff.mpr ⟨L, hL⟩⟩
    · rintro ⟨t, ht⟩
      obtain ⟨q, hq⟩ := readLink_iff.mp ht
      rw [(lookup_unique hL hq).2]
      rfl

/-- What a path names is no directory if it leads to none. -/
theorem isDir_of_named {L : Place} {y z : Entry}
    (hy : ks.lookup host.cwd o true = .ok (.entry O y)) (hnodir : y.isDir = false)
    (hL : ks.lookup host.cwd o false = .ok (.entry L z)) (hnamed : z.isLink = true ∨ L = O) :
    z.isDir = false := by
  rcases hnamed with hlink | rfl
  · obtain ⟨t, rfl⟩ := Entry.isLink_iff.mp hlink
    rfl
  · rwa [Option.some.inj ((get?_of_lookup hL).symm.trans (get?_of_lookup hy))]

/-- When an output of size zero has been dropped, its path leads nowhere. What it led to is left
exactly if the path names a link, which is what goes. -/
theorem get?_dropIfEmpty_of_zero {L : Place} {y z : Entry} (hw : ks.WellFormed)
    (hsize : ks.size host.cwd o = .ok 0)
    (hy : ks.lookup host.cwd o true = .ok (.entry O y)) (hnolink : y.isLink = false)
    (hnodir : y.isDir = false) (hL : ks.lookup host.cwd o false = .ok (.entry L z))
    (hnamed : z.isLink = true ∨ L = O) :
    (dropIfEmpty host.cwd o ks).2.WellFormed ∧
    (∀ q e, (dropIfEmpty host.cwd o ks).2.stat host.cwd o true ≠ .ok (q, e)) ∧
    ∀ e, (dropIfEmpty host.cwd o ks).2.get? O = some e ↔ z.isLink = true ∧ e = y := by
  have hgetO := get?_of_lookup hy
  have hgetL := get?_of_lookup hL
  have hgone := removeFile_of_lookup hL (isDir_of_named hy hnodir hL hnamed)
  obtain ⟨F, x, hF, hne, -, hwl, -⟩ := gone_of_removeFile hw hgone
  obtain ⟨rfl, -⟩ := lookup_unique hL hF
  rw [dropIfEmpty_of_zero hsize hgone]
  refine ⟨hwl, ?_, ?_⟩
  · intro q e hstat
    exact not_lookup_of_removeFile hw hgone (stat_eq_ok_iff.mp hstat)
  · intro e
    rw [get?_erase hne]
    by_cases hOL : O = L
    · subst hOL
      obtain rfl := Option.some.inj (hgetL.symm.trans hgetO)
      simp [hnolink]
    · rw [if_neg hOL, hgetO, Option.some.injEq, eq_comm]
      exact (and_iff_right (hnamed.resolve_right (Ne.symm hOL))).symm

/-! ## Outputs that are not the index -/

/-- The guard refuses no output that is another file than the index. -/
theorem isOneFile_eq_false (hindex : fs.stat host.cwd index true = .ok (i, .file id mode content))
    (hopened : host.openExport o fs = (.ok sink, os)) (hother : sink ≠ .file id) :
    fs.isOneFile host.cwd o index = false := by
  rcases host.openExport_cases o fs with ⟨e, he⟩ | ⟨hs, sink', hopen, hok⟩
  · rw [he] at hopened
    cases hopened
  · rw [hok] at hopened
    obtain rfl := Except.ok.inj (Prod.mk.inj hopened).1
    have hmono : ∀ {path p e}, fs.lookup host.cwd path true = .ok (.entry p e) →
        (host.withParents o fs).1.lookup host.cwd path true = .ok (.entry p e) :=
      lookup_mono fun q x => (host.dirsAdded_withParents o fs).get?_eq
    have hlook := stat_eq_ok_iff.mp hindex
    -- An output that leads to the index when it is opened would be the index.
    have hnot : (host.withParents o fs).1.lookup host.cwd o true ≠
        .ok (.entry i (.file id mode content)) := by
      intro ho
      rcases openWrite_eq_ok hopen with ⟨d, n, hv, -⟩ | ⟨p, id', m, bs, hp, -, hid⟩ |
        ⟨p, kind, hp, -⟩
      · rw [ho] at hv
        cases hv
      · rw [ho] at hp
        cases hp
        exact hother hid
      · rw [ho] at hp
        cases hp
    rw [isOneFile, Bool.or_eq_false_iff]
    constructor
    · by_contra hsame
      rw [Bool.not_eq_false] at hsame
      cases ho : (host.withParents o fs).1.lookup host.cwd o true with
      | error e =>
        rcases openWrite_eq_ok hopen with ⟨d, n, hp, -⟩ | ⟨p, id', m, bs, hp, -⟩ |
          ⟨p, kind, hp, -⟩ <;> rw [ho] at hp <;> cases hp
      | ok found =>
        rw [lookup_eq_of_sameSteps hsame ho (hmono hlook)] at ho
        exact hnot ho
    · rw [canonical, canonical, hindex]
      cases ho : fs.stat host.cwd o true with
      | error e => rfl
      | ok r =>
        obtain ⟨p, e⟩ := r
        have hp := stat_eq_ok_iff.mp ho
        simp only [Except.map, decide_eq_false_iff_not]
        rintro rfl
        obtain rfl := Option.some.inj ((get?_of_lookup hp).symm.trans (get?_of_lookup hlook))
        exact hnot (hmono hp)

end Host

/-! ## What an export comes to -/

/-- What an export to `o` comes to, from the bytes in it and how the exporter ended. -/
def exportVerdict (o : Path) (bytes : List UInt8) :
    Except ChildError Captured → Except ExportError Exported
  | .error e => .error (.child e)
  | .ok out =>
    if out.status.success then
      if bytes = [] then .error (.nothingWritten o) else .ok ⟨o, bytes.length, out.stderr⟩
    else .error (.unsuccessful out.status out.stderr (if bytes = [] then none else some o))

/-- The bytes that an open file keeps of those written to it. A device keeps none. -/
def OpenFile.kept : OpenFile → List UInt8 → List UInt8
  | .file _, bytes => bytes
  | .discard, _ => []

namespace Host

/-- An export that has left bytes in its output leaves them there. -/
theorem settleExport_of_ne_nil (hne : bytes ≠ [])
    (hsize : fs.size host.cwd o = .ok bytes.length) :
    host.settleExport o ended fs = (exportVerdict o bytes ended, fs) := by
  have hlen : bytes.length ≠ 0 := fun h => hne (List.length_eq_zero_iff.mp h)
  have hmeasure : host.measureExport o fs = (.ok bytes.length, fs) := by
    unfold measureExport
    rw [hsize]
    exact if_neg hlen
  rw [settleExport_apply, dropIfEmpty_of_ne_zero hsize hlen, hmeasure]
  cases ended with
  | error e => rfl
  | ok out =>
    dsimp only [exportVerdict]
    rw [if_neg hne, if_neg hne, Option.getD_some, if_pos (Nat.pos_of_ne_zero hlen)]
    split <;> rfl

/-- An export that has left none removes its output. -/
theorem settleExport_of_nil (hsize : fs.size host.cwd o = .ok 0)
    (hgone : fs.removeFile host.cwd o = .ok gs) :
    host.settleExport o ended fs = (exportVerdict o [] ended, gs) := by
  have hmeasure : host.measureExport o fs = (.error (.nothingWritten o), gs) := by
    unfold measureExport
    rw [hsize]
    dsimp only
    rw [if_pos rfl, hgone]
  rw [settleExport_apply, dropIfEmpty_of_zero hsize hgone, hmeasure]
  cases ended with
  | error e => rfl
  | ok out =>
    dsimp only [exportVerdict]
    split <;> rfl

/-- An output that was only written to leads somewhere, and has the bytes that it keeps. -/
theorem read_of_onlyWritten (hopened : host.openExport o hs = (.ok sink, os))
    (hwritten : OnlyWritten host.cwd o sink bytes os ks) :
    (∃ q y, ks.lookup host.cwd o true = .ok (.entry q y)) ∧
      ks.size host.cwd o = .ok (sink.kept bytes).length ∧
      ks.read host.cwd o = .ok (sink.kept bytes) := by
  obtain ⟨q, ⟨id, m, rfl, -, hk⟩ | ⟨kind, rfl, -, hk⟩⟩ :=
    lookup_of_written hopened (hwritten true) <;>
  · have hstat := stat_eq_ok_iff.mpr hk
    refine ⟨⟨q, _, hk⟩, ?_, ?_⟩
    · rw [size, hstat]
      rfl
    · rw [FileSystem.read, hstat]
      rfl

/-- It can be removed. -/
theorem exists_removeFile_of_onlyWritten (hopened : host.openExport o hs = (.ok sink, os))
    (hwritten : OnlyWritten host.cwd o sink bytes os ks) :
    ∃ gs, ks.removeFile host.cwd o = .ok gs := by
  obtain ⟨O, x, hO⟩ : ∃ O x, os.lookup host.cwd o true = .ok (.entry O x) := by
    obtain ⟨q, ⟨id, m, -, hq, -⟩ | ⟨kind, -, hq, -⟩⟩ :=
      lookup_of_written hopened (hwritten true)
    · exact ⟨_, _, hq⟩
    · exact ⟨_, _, hq⟩
  obtain ⟨L, z, hL, hnamed, -⟩ := named_of_onlyWritten hwritten hO
  obtain ⟨y, hy, -, hdir, -⟩ := followed_of_onlyWritten hopened hwritten hO
  exact ⟨_, removeFile_of_lookup hL (isDir_of_named hy hdir hL hnamed)⟩

/-- Diagnostics are what the exporter wrote to its standard error, as text. -/
theorem stderr_of_run {name : String} {command : Command} {limit : Option Nat} {out : Captured}
    (h : host.run name command (some sink) limit fs = (.ok out, gs)) :
    ∃ launch, host.launch fs command (some sink) = .ok launch ∧ out.stderr =
      Text.Utf8.decode (host.behaviour launch fs (limit.map lastPoll)).stderr := by
  unfold run at h
  split at h
  · cases h
  · split at h
    · cases h
    · next launch hlaunch =>
      dsimp only at h
      split at h
      · cases h
      · obtain rfl := Except.ok.inj (Prod.mk.inj h).1
        exact ⟨launch, hlaunch, rfl⟩

/-- An export comes to what its output keeps of the bytes written to it and what the end of the
exporter say. Then the output holds what it keeps, or there is none if it keeps nothing. -/
theorem exportJson_of_onlyWritten
    (hprepare : host.prepareExport index output call fs = (.ok (o, sink, command), os))
    (hrun : host.run call.tool.name command (some sink) call.timeout os = (ended, ks))
    (hwk : ks.WellFormed) (hwritten : OnlyWritten host.cwd o sink bytes os ks) :
    ∃ gs, host.exportJson index output call fs = (exportVerdict o (sink.kept bytes) ended, gs) ∧
      ((∀ follow p e, gs.lookup host.cwd o follow ≠ .ok (.entry p e)) ↔ sink.kept bytes = []) ∧
      (sink.kept bytes ≠ [] → gs.read host.cwd o = .ok (sink.kept bytes)) := by
  have hopened := (prepareExport_eq_ok hprepare).2
  obtain ⟨⟨q, y, hleads⟩, hsize, hread⟩ := read_of_onlyWritten hopened hwritten
  rw [exportJson_of_ok hprepare, hrun]
  by_cases hnil : sink.kept bytes = []
  · obtain ⟨gs, hgone⟩ := exists_removeFile_of_onlyWritten hopened hwritten
    rw [hnil] at hsize
    refine ⟨gs, ?_, iff_of_true (fun follow p e => ?_) hnil, fun hne => absurd hnil hne⟩
    · rw [settleExport_of_nil hsize hgone, hnil]
    · exact not_lookup_of_removeFile hwk hgone
  · exact ⟨ks, settleExport_of_ne_nil hnil hsize,
      iff_of_false (fun hnone => hnone true q y hleads) hnil, fun _ => hread⟩

/-- The exporter is run in the directory of the index when an output that is another file than the
index has been opened. -/
theorem prepareExport_of_opened {dir : Path} {name : String}
    (hindex : fs.stat host.cwd index true = .ok (i, .file id mode content))
    (hparts : host.indexParts fs index = .ok (dir, name))
    (ho : host.exportPath index output call.jsonFileName = .ok o)
    (hopened : host.openExport o fs = (.ok sink, os)) (hother : sink ≠ .file id) :
    host.prepareExport index output call fs =
      (.ok (o, sink, ⟨call.tool.path, ["print", "--json", name], some dir⟩), os) := by
  have hprepare := prepareExport_apply call hparts ho
  rwa [isOneFile_eq_false hindex hopened hother, if_neg Bool.false_ne_true, hopened] at hprepare

/-- The output leads to a device when the directories above it are there. -/
def OnDevice (host : Host) (o : Path) (fs : FileSystem) : Prop :=
  ∃ q kind, (host.withParents o fs).1.lookup host.cwd o true = .ok (.entry q (.device kind))

/-- Nothing is kept of what is written to an output exactly if it leads to a device. -/
theorem eq_discard_iff_onDevice (hopened : host.openExport o fs = (.ok sink, os)) :
    sink = .discard ↔ host.OnDevice o fs := by
  rcases host.openExport_cases o fs with ⟨e, he⟩ | ⟨hs, sink', hopen, hok⟩
  · rw [he] at hopened
    cases hopened
  · rw [hok] at hopened
    obtain rfl := Except.ok.inj (Prod.mk.inj hopened).1
    rcases openWrite_eq_ok hopen with ⟨d, n, hv, -, -, -, -, rfl⟩ | ⟨p, id, m, bs, hp, -, rfl⟩ |
      ⟨p, kind, hp, -, rfl⟩
    · refine iff_of_false (fun h => nomatch h) ?_
      rintro ⟨q, kind, hq⟩
      cases hv.symm.trans hq
    · refine iff_of_false (fun h => nomatch h) ?_
      rintro ⟨q, kind, hq⟩
      cases hp.symm.trans hq
    · exact iff_of_true rfl ⟨p, kind, hp⟩

/-- Output that is on no device keeps all that is written to it. -/
theorem kept_of_not_onDevice (hopened : host.openExport o fs = (.ok sink, os))
    (hfile : ¬ host.OnDevice o fs) (bytes : List UInt8) : sink.kept bytes = bytes := by
  cases sink with
  | file id => rfl
  | discard => exact absurd ((eq_discard_iff_onDevice hopened).mp rfl) hfile

/-- An export of an index to another file, which is there or is made, comes to what the bytes in its
output and the end of the exporter say, if the exporter did nothing to the output but write to it.
Then the output holds these bytes, or there is none if there are no bytes, whatever was there
before. -/
theorem export_settled (hw : fs.WellFormed)
    (hindex : fs.stat host.cwd index true = .ok (i, .file id mode content))
    (ho : host.exportPath index output call.jsonFileName = .ok o)
    (hopened : host.openExport o fs = (.ok sink, os)) (hother : sink ≠ .file id)
    (hfile : ¬ host.OnDevice o fs) :
    ∃ dir name, host.indexParts fs index = .ok (dir, name) ∧
      let command : Command := ⟨call.tool.path, ["print", "--json", name], some dir⟩
      ∀ ended ks, host.run call.tool.name command (some sink) call.timeout os = (ended, ks) →
        (∀ out, ended = .ok out → ∃ launch, host.launch os command (some sink) = .ok launch ∧
          out.stderr = Text.Utf8.decode
            (host.behaviour launch os (call.timeout.map lastPoll)).stderr) ∧
        ∀ bytes, ks.WellFormed → OnlyWritten host.cwd o sink bytes os ks →
          ∃ gs, host.exportJson index output call fs = (exportVerdict o bytes ended, gs) ∧
            ((∀ follow p e, gs.lookup host.cwd o follow ≠ .ok (.entry p e)) ↔ bytes = []) ∧
            (bytes ≠ [] → gs.read host.cwd o = .ok bytes) := by
  obtain ⟨⟨dir, name⟩, hparts⟩ := exists_indexParts hw hindex
  refine ⟨dir, name, hparts, fun ended ks hrun => ⟨fun out hout => ?_, fun bytes hwk hwritten => ?_⟩⟩
  · subst hout
    exact stderr_of_run hrun
  · have hsettled := exportJson_of_onlyWritten
      (prepareExport_of_opened hindex hparts ho hopened hother) hrun hwk hwritten
    rwa [kept_of_not_onDevice hopened hfile bytes] at hsettled

/-! ## An output that was there before -/

/-- Surroundings in which a program that is given an output writes to it, and a letter to its
standard error. -/
def writingHost : Host where
  cwd := ["work"]
  environment := []
  tempNames := fun _ => "x"
  behaviour := fun launch fs _ =>
    match launch.stdout with
    | some sink => .ended (fs.write sink [123, 125]) [] [119] (.exited 0) 0
    | none => .ended fs [] [] (.exited 0) 0

/-- An exporter, an index and an older output. -/
def exportedBefore : FileSystem where
  entries := [(["tmp"], .dir 0o777), (["bin"], .dir 0o755),
    (["bin", "exp"], .file 0 0o755 machineCodeMark), (["work"], .dir 0o755),
    (["work", "index.scip"], .file 1 0o644 [73]),
    (["work", "index_scip.json"], .file 2 0o644 [111, 108, 100])]
  next := 3

/-- The run of the exporter on the older output. -/
def rewriting : Except ChildError Captured × FileSystem :=
  writingHost.run "exp" ⟨⟨"/bin/exp"⟩, ["print", "--json", "index.scip"], some ⟨"/work"⟩⟩
    (some (.file 2)) none (exportedBefore.truncate 2)

/-- The older output makes way for what the exporter wrote. -/
theorem older_output_overwritten :
    ∃ gs, writingHost.exportJson ⟨"/work/index.scip"⟩ none exporterCall exportedBefore =
        (.ok ⟨⟨"/work/index_scip.json"⟩, 2, "w"⟩, gs) ∧
      gs.read writingHost.cwd ⟨"/work/index_scip.json"⟩ = .ok [123, 125] := by
  have hindex : exportedBefore.stat writingHost.cwd ⟨"/work/index.scip"⟩ true =
      .ok (["work", "index.scip"], .file 1 0o644 [73]) := by decide +kernel
  have ho : writingHost.exportPath ⟨"/work/index.scip"⟩ none exporterCall.jsonFileName =
      .ok ⟨"/work/index_scip.json"⟩ := by decide +kernel
  have hopened : writingHost.openExport ⟨"/work/index_scip.json"⟩ exportedBefore =
      (.ok (.file 2), exportedBefore.truncate 2) := by
    change @Eq (Except ExportError OpenFile × FileSystem) _ _
    decide +kernel
  have hparts : writingHost.indexParts exportedBefore ⟨"/work/index.scip"⟩ =
      .ok (⟨"/work"⟩, "index.scip") := by decide +kernel
  have hwritten : OnlyWritten writingHost.cwd ⟨"/work/index_scip.json"⟩ (.file 2) [123, 125]
      (exportedBefore.truncate 2) rewriting.2 := by
    intro follow
    cases follow <;> decide +kernel
  have hfile : ¬ writingHost.OnDevice ⟨"/work/index_scip.json"⟩ exportedBefore := by
    rw [← eq_discard_iff_onDevice hopened]
    decide
  obtain ⟨dir, name, hparts', hsettled⟩ :=
    export_settled (by decide +kernel) hindex ho hopened (by decide) hfile
  obtain ⟨rfl, rfl⟩ := Prod.mk.inj (Except.ok.inj (hparts'.symm.trans hparts))
  obtain ⟨-, hbytes⟩ := hsettled rewriting.1 rewriting.2 rfl
  obtain ⟨gs, hexport, -, hread⟩ := hbytes [123, 125] (by decide +kernel) hwritten
  have hverdict : exportVerdict ⟨"/work/index_scip.json"⟩ [123, 125] rewriting.1 =
      .ok ⟨⟨"/work/index_scip.json"⟩, 2, "w"⟩ := by decide +kernel
  exact ⟨gs, by rw [hexport, hverdict], hread (by decide)⟩

/-! ## An output that is a device -/

/-- An export to a device comes to what it would come to if nothing had been written, and the output
is removed: a device has no size. -/
theorem device_export_settled (hw : fs.WellFormed)
    (hindex : fs.stat host.cwd index true = .ok (i, .file id mode content))
    (ho : host.exportPath index output call.jsonFileName = .ok o)
    (hopened : host.openExport o fs = (.ok sink, os)) (hdevice : host.OnDevice o fs) :
    ∃ dir name, host.indexParts fs index = .ok (dir, name) ∧
      let command : Command := ⟨call.tool.path, ["print", "--json", name], some dir⟩
      ∀ ended ks, host.run call.tool.name command (some sink) call.timeout os = (ended, ks) →
        ∀ bytes, ks.WellFormed → OnlyWritten host.cwd o sink bytes os ks →
          ∃ gs, host.exportJson index output call fs = (exportVerdict o [] ended, gs) ∧
            ∀ follow p e, gs.lookup host.cwd o follow ≠ .ok (.entry p e) := by
  obtain ⟨⟨dir, name⟩, hparts⟩ := exists_indexParts hw hindex
  obtain rfl := (eq_discard_iff_onDevice hopened).mpr hdevice
  refine ⟨dir, name, hparts, fun ended ks hrun bytes hwk hwritten => ?_⟩
  obtain ⟨gs, hexport, hgone, -⟩ := exportJson_of_onlyWritten
    (prepareExport_of_opened hindex hparts ho hopened (by simp)) hrun hwk hwritten
  exact ⟨gs, hexport, hgone.mpr rfl⟩

/-- An exporter, an index and a device. -/
def besideDevice : FileSystem where
  entries := [(["tmp"], .dir 0o777), (["bin"], .dir 0o755),
    (["bin", "exp"], .file 0 0o755 machineCodeMark), (["work"], .dir 0o755),
    (["work", "index.scip"], .file 1 0o644 [73]), (["work", "null"], .device .null)]
  next := 2

/-- The run of the exporter that writes to the device. -/
def intoDevice : Except ChildError Captured × FileSystem :=
  writingHost.run "exp" ⟨⟨"/bin/exp"⟩, ["print", "--json", "index.scip"], some ⟨"/work"⟩⟩
    (some .discard) none besideDevice

/-- An exporter that ends with success and has written two bytes to a device, which is no link, is
said to have written nothing, and the device is removed. -/
theorem device_output_removed :
    besideDevice.WellFormed ∧
    besideDevice.stat writingHost.cwd ⟨"/work/index.scip"⟩ true =
      .ok (["work", "index.scip"], .file 1 0o644 [73]) ∧
    writingHost.exportPath ⟨"/work/index.scip"⟩ (some ⟨"/work/null"⟩) exporterCall.jsonFileName =
      .ok ⟨"/work/null"⟩ ∧
    besideDevice.stat writingHost.cwd ⟨"/work/null"⟩ false =
      .ok (["work", "null"], .device .null) ∧
    writingHost.openExport ⟨"/work/null"⟩ besideDevice = (.ok .discard, besideDevice) ∧
    (∃ launch, writingHost.launch besideDevice
        ⟨⟨"/bin/exp"⟩, ["print", "--json", "index.scip"], some ⟨"/work"⟩⟩ (some .discard) =
          .ok launch ∧
      writingHost.behaviour launch besideDevice none =
        .ended (besideDevice.write .discard [123, 125]) [] [119] (.exited 0) 0) ∧
    OnlyWritten writingHost.cwd ⟨"/work/null"⟩ .discard [123, 125] besideDevice intoDevice.2 ∧
    exportVerdict ⟨"/work/null"⟩ [123, 125] intoDevice.1 = .ok ⟨⟨"/work/null"⟩, 2, "w"⟩ ∧
    ∃ gs, writingHost.exportJson ⟨"/work/index.scip"⟩ (some ⟨"/work/null"⟩) exporterCall
        besideDevice = (.error (.nothingWritten ⟨"/work/null"⟩), gs) ∧
      gs.get? ["work", "null"] = none := by
  have hopened : writingHost.openExport ⟨"/work/null"⟩ besideDevice =
      (.ok .discard, besideDevice) := by
    change @Eq (Except ExportError OpenFile × FileSystem) _ _
    decide +kernel
  have hwritten : OnlyWritten writingHost.cwd ⟨"/work/null"⟩ .discard [123, 125] besideDevice
      intoDevice.2 := by
    intro follow
    cases follow <;> decide +kernel
  have hexport : (writingHost.exportJson ⟨"/work/index.scip"⟩ (some ⟨"/work/null"⟩) exporterCall
      besideDevice).1 = .error (.nothingWritten ⟨"/work/null"⟩) := by decide +kernel
  refine ⟨by decide +kernel, by decide +kernel, by decide +kernel, by decide +kernel, hopened,
    ⟨⟨["bin", "exp"], [], ⟨"/bin/exp"⟩, ["print", "--json", "index.scip"], ["work"], [],
      some .discard⟩, by decide +kernel, rfl⟩, hwritten, by decide +kernel,
    _, Prod.ext hexport rfl, by decide +kernel⟩

end Host

end CodeIndex

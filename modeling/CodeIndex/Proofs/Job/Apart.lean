import CodeIndex.Proofs.Job.Steps
import CodeIndex.Proofs.WorkingCopy.Arrival

/-!
# Apart from the project

What an export and a copy are to keep to, so that the project stays as it is.

* `Host.TempApart` : no temporary directory is made in the project;
* `Host.WayApart` : a destination is not reached by a link to the project;
* `Host.WritesApart` : the output of an export is not in the project, as far as it is written to;
* `Host.wayApart_of_arrives`, `Host.writesApart_of_places` : what keeps to them leads to places apart
  from the project;
* `Host.spared_of_copy`, `Host.spared_of_export` : a copy and an export that keep to them spare the
  project.
-/

namespace CodeIndex

open FileSystem

variable {host : Host} {fs gs hs : FileSystem} {S W F : Place} {copy : WorkingCopy}
  {request : Request} {settings : Settings} {given : Path} {name : String} {index : Path}
  {output : Option Path} {call : ExporterCall}

namespace Host

/-- The temporary directory for the copy is not made in the project. -/
def TempApart (host : Host) (skip? : Except CopyError Exclusion) (request : Request)
    (settings : Settings) (fs : FileSystem) (S : Place) : Prop :=
  ∀ skip copy gs root F, host.prepareCopy skip? request settings fs = (.ok (skip, copy), gs) →
    copy.placement = .temporary root →
    fs.lookup host.cwd (withoutEndSlashes root) false = .ok (.vacant F) → ¬ S <+: F

/-- No link left in the settled destination leads to a directory, or else making the place of the copy
and filling it leave the project as it is all the same. -/
def WayApart (host : Host) (skip? : Except CopyError Exclusion) (request : Request)
    (settings : Settings) (fs : FileSystem) (S : Place) : Prop :=
  ∀ given R, request.destination = some given → PlainPlace R →
    fs.settledDestination host.cwd given = .ok (Path.ofNames R) →
      fs.Clear R ∨ SameBelow fs (host.prepareCopy skip? request settings fs).2 S ∧
        SameBelow fs (host.copyProject skip? request settings fs).2 S

theorem wayApart_of_temporary (h : request.destination = none)
    {skip? : Except CopyError Exclusion} : host.WayApart skip? request settings fs S := by
  intro given R hdest
  rw [h] at hdest
  cases hdest

/-- A copy keeps to it whose place, where the destination leads, is apart from the project. -/
theorem wayApart_of_arrives (hw : fs.WellFormed) (hS : fs.isDirAt S = true)
    (hsource : request.source = Path.ofNames S) {skip? : Except CopyError Exclusion}
    (h : ∀ given R, request.destination = some given → PlainPlace R →
      fs.settledDestination host.cwd given = .ok (Path.ofNames R) → fs.Clear R ∨
        ∃ p u D, R = p ++ u ∧ fs.Arrives host.cwd p u D ∧
          ¬ S <+: copyPlace (D ++ u) S ∧ ¬ copyPlace (D ++ u) S <+: S) :
    host.WayApart skip? request settings fs S := by
  intro given R hdest hR hsettled
  rcases h given R hdest hR hsettled with hclear | ⟨p, u, D, rfl, harrives, hSW, hWS⟩
  · exact Or.inl hclear
  · obtain ⟨hplaced, hfilled⟩ :=
      copyProject_arrives hw hS hsource hdest hR hsettled harrives skip?
    exact Or.inr ⟨hplaced.sameBelow hSW hWS, hfilled.sameBelow hSW hWS⟩

/-- Opening the output leaves the project as it is. If what is open is a file of the project, then
the exporter leaves it as it is, and if the output has its name in the project, then it is not
removed. -/
def WritesApart (host : Host) (index : Path) (output : Option Path) (call : ExporterCall)
    (fs : FileSystem) (S : Place) : Prop :=
  match host.prepareExport index output call fs with
  | (.error _, gs) => SameBelow fs gs S
  | (.ok (o, sink, command), gs) =>
    let hs := (host.run call.tool.name command (some sink) call.timeout gs).2
    SameBelow fs gs S ∧ (∀ q, S <+: q → sink.IsAt gs q → hs.get? q = gs.get? q) ∧
      ∀ q e, S <+: q → hs.stat host.cwd o false = .ok (q, e) →
        (host.exportJson index output call fs).2.get? q = some e

/-- The output leads apart from the project: no directory is made in the project for it, it is not
opened there, and it does not have its name there when the exporter has ended. -/
structure OutputApart (host : Host) (index : Path) (output : Option Path) (call : ExporterCall)
    (fs : FileSystem) (S : Place) : Prop where
  parents : ∀ o, host.exportPath index output call.jsonFileName = .ok o → ∀ q, S <+: q →
    fs.get? q = none → (host.withParents o fs).1.get? q = none
  place : ∀ o found, host.exportPath index output call.jsonFileName = .ok o →
    (host.withParents o fs).1.lookup host.cwd o true = .ok found → ¬ S <+: found.place
  name : ∀ o sink command gs,
    host.prepareExport index output call fs = (.ok (o, sink, command), gs) → ∀ q e,
      (host.run call.tool.name command (some sink) call.timeout gs).2.stat host.cwd o false =
        .ok (q, e) → ¬ S <+: q

/-- The directories for an output that leads apart from the project are none of it. -/
theorem OutputApart.sameBelow {o : Path} (h : host.OutputApart index output call fs S)
    (ho : host.exportPath index output call.jsonFileName = .ok o) :
    SameBelow fs (host.withParents o fs).1 S := by
  intro q hq
  rcases (host.dirsAdded_withParents o fs).get?_eq_or q with hsame | ⟨hnone, hmade⟩
  · exact hsame
  · rw [h.parents o ho q hq hnone] at hmade
    cases hmade

/-- Such an output is opened without the project, if no file stands in two places. -/
theorem OutputApart.opened {o : Path} (h : host.OutputApart index output call fs S)
    (hw : fs.WellFormed) (hs : fs.SingleNamed)
    (ho : host.exportPath index output call.jsonFileName = .ok o) :
    SameBelow fs (host.openExport o fs).2 S ∧ ∀ sink, (host.openExport o fs).1 = .ok sink →
      ∀ q, S <+: q → ¬ sink.IsAt (host.openExport o fs).2 q := by
  have hdirs := host.dirsAdded_withParents o fs
  have hparents := h.sameBelow ho
  have hplace := h.place o
  rcases host.openExport_cases o fs with ⟨e, he⟩ | ⟨gs, sink, hopen, hok⟩
  · rw [he]
    exact ⟨hparents, fun sink hsink => by cases hsink⟩
  rw [hok]
  -- What is open is no file of the project, so that opening it changes nothing there.
  have hother : ∀ q, S <+: q → ¬ sink.IsAt (host.withParents o fs).1 q := by
    rintro q hq ⟨id, mode, bytes, rfl, hget⟩
    have hfs := (hparents q hq).symm.trans hget
    rcases openWrite_eq_ok hopen with ⟨d, n, -, -, -, -, -, hid⟩ | ⟨p, id', m, bs, hp, -, hid⟩ |
      ⟨p, kind, -, -, hid⟩
    · have hlt := hw.id_lt hfs
      have hnext := hdirs.next_eq
      rw [OpenFile.file.injEq] at hid
      omega
    · obtain rfl := OpenFile.file.inj hid
      obtain rfl : p = q := by
        rcases hdirs.get?_eq_or p with hsame | ⟨-, hdir⟩
        · exact hs.eq (hsame.symm.trans (get?_of_lookup hp)) hfs
        · rw [get?_of_lookup hp] at hdir
          cases hdir
      exact hplace _ ho hp hq
    · cases hid
  have hsame : SameBelow (host.withParents o fs).1 gs S := by
    intro q hq
    by_contra hchanged
    rcases openWrite_eq_ok hopen with ⟨d, n, hv, -, -, -, rfl, -⟩ | ⟨p, id, m, bs, -, rfl, rfl⟩ |
      ⟨p, kind, -, rfl, -⟩
    · rw [get?_putNewFile (by simp), if_neg] at hchanged
      · exact hchanged rfl
      · rintro rfl
        exact hplace _ ho hv hq
    · exact hother q hq (OpenFile.isAt_of_mapFile hchanged)
    · exact hchanged rfl
  refine ⟨hparents.trans hsame, fun sink' hsink q hq hat => ?_⟩
  obtain rfl := Except.ok.inj hsink
  obtain ⟨id, mode, bytes, hid, hget⟩ := hat
  exact hother q hq ⟨id, mode, bytes, hid, (hsame q hq).symm.trans hget⟩

/-- An output that leads apart from the project is written apart from it. -/
theorem writesApart_of_places (hw : fs.WellFormed) (hs : fs.SingleNamed)
    (h : host.OutputApart index output call fs S) : host.WritesApart index output call fs S := by
  have hname := h.name
  unfold WritesApart
  rcases host.prepareExport_cases index output call fs with ⟨e, he⟩ |
    ⟨o, ho, ⟨e, he⟩ | ⟨sink, command, -, hsink, hok⟩⟩
  · rw [he]
    exact fun _ _ => rfl
  · rw [he]
    exact (h.opened hw hs ho).1
  · obtain ⟨hsame, hother⟩ := h.opened hw hs ho
    rw [hok] at hname ⊢
    exact ⟨hsame, fun q hq hat => absurd hat (hother sink hsink q hq),
      fun q e hq hstat => absurd hq (hname o sink command _ rfl q e hstat)⟩

/-! ## The export -/

/-- An export that writes apart from the project keeps it at every step. -/
theorem spared_of_export (h : Spared host fs gs copy S W) (hw : fs.WellFormed) (hSW : ¬ S <+: W)
    (hWS : ¬ W <+: S) (htool : host.KeepsTo call.tool W)
    (hwrites : host.WritesApart index output call gs S) :
    (∀ hs ∈ host.exportPassage index output call gs, SameBelow fs hs S) ∧
      Spared host fs (host.exportJson index output call gs).2 copy S W := by
  unfold WritesApart at hwrites
  unfold exportPassage
  rcases host.prepareExport_cases index output call gs with ⟨e, he⟩ |
    ⟨o, -, ⟨e, he⟩ | ⟨sink, command, hprogram, -, hok⟩⟩
  · rw [exportJson_of_error he, he]
    exact ⟨fun hs hmem => by rw [List.mem_singleton.mp hmem]; exact h.sameBelow, h⟩
  · rw [exportJson_of_error he]
    rw [he] at hwrites ⊢
    obtain ⟨hwo, hkeep⟩ := openExport_keeps h.wellFormed host o
    have hopened := h.mono hwo hwrites hkeep
    exact ⟨fun hs hmem => by rw [List.mem_singleton.mp hmem]; exact hopened.sameBelow, hopened⟩
  · have hend := congrArg Prod.snd (exportJson_of_ok hok)
    rw [hok] at hwrites ⊢
    dsimp only at hwrites ⊢
    obtain ⟨hopen, hsink, hname⟩ := hwrites
    obtain ⟨hwo, hkeep⟩ := openExport_keeps h.wellFormed host o
    have hopened := h.mono hwo hopen hkeep
    obtain ⟨hwr, hchanged⟩ :=
      htool command (some sink) call.timeout (host.openExport o gs).2 hprogram hwo
    rcases hrun : host.run call.tool.name command (some sink) call.timeout (host.openExport o gs).2
      with ⟨ended, hs⟩
    rw [hrun] at hend hsink hname hwr hchanged
    dsimp only at hend hsink hname hwr hchanged ⊢
    have hwritten : Spared host fs hs copy S W := by
      refine hopened.tool hw hSW hWS hwr (some sink) hchanged fun q sink' hq hsink' hat => ?_
      obtain rfl := Option.some.inj hsink'
      exact hsink q hq hat
    have hsettled : Spared host fs (host.exportJson index output call gs).2 copy S W := by
      rcases host.dropped_settleExport o ended hs with hsame | ⟨hsize, hgone⟩
      · rw [hend, hsame]
        exact hwritten
      · obtain ⟨q, e, hstat, hdir, hq⟩ := removeFile_eq_ok hgone
        rw [hend, hq]
        refine hwritten.erase hstat hdir hsize fun hSq => ?_
        have hkept := hname q e hSq hstat
        have hne := ne_nil_of_isDir (get?_of_lookup (stat_eq_ok_iff.mp hstat)) hdir
        rw [hend, hq, get?_erase hne, if_pos rfl] at hkept
        cases hkept
    refine ⟨fun ks hmem => ?_, hsettled⟩
    simp only [List.mem_cons, List.not_mem_nil, or_false] at hmem
    rcases hmem with rfl | rfl | rfl
    · exact hopened.sameBelow
    · exact hwritten.sameBelow
    · exact hsettled.sameBelow

/-! ## The copy -/

/-- A temporary directory that is not made in the project spares it. -/
theorem spared_of_createDir {root : Path} (hw : fs.WellFormed) (hS : fs.isDirAt S = true)
    (hname : IsName name) (hmade : fs.createDir host.cwd root 0o700 = .ok gs)
    (hapart : ∀ F, fs.lookup host.cwd (withoutEndSlashes root) false = .ok (.vacant F) →
      ¬ S <+: F) :
    ∃ W, ¬ S <+: W ∧ ¬ W <+: S ∧ Ready fs gs host.cwd (root.child name) W ∧
      Spared host fs gs ⟨root.child name, .temporary root⟩ S W := by
  obtain ⟨F, hready, hF, hv, rfl⟩ := ready_of_createDir hw hname hmade
  have hSF := hapart F hv
  have hFne : F ≠ [] := by
    rintro rfl
    cases hF
  -- The directory is new, so it is not above the project either.
  have hFS : ¬ F <+: S := by
    intro hpre
    have hnone := hw.get?_eq_none_of_vacant hv hpre
    rw [FileSystem.isDirAt, hnone] at hS
    cases hS
  refine ⟨F ++ [name], fun hpre => ?_, fun hpre => hFS ((List.prefix_append F [name]).trans hpre),
    hready, hready.wellFormed, fun q hq => ?_, fun root' hroot => ?_⟩
  · rcases List.prefix_concat_iff.mp hpre with heq | hpre
    · exact hFS (heq ▸ List.prefix_append F [name])
    · exact hSF hpre
  · rw [get?_put hFne, if_neg]
    rintro rfl
    exact hSF hq
  · obtain rfl := Placement.temporary.inj hroot
    exact ⟨F, name, rfl, hSF, hv, KeepsWays.of_mono fun q x => get?_put_of_some hFne hF,
      isDirAt_iff.mpr ⟨_, by rw [get?_put hFne, if_pos rfl]⟩⟩

/-- A place that is made on a clear way spares the project. -/
theorem spared_of_placeBelow {R : Place} (hw : fs.WellFormed) (hS : fs.isDirAt S = true)
    (hname : IsName name) (hR : PlainPlace R)
    (hsettled : fs.settledDestination host.cwd given = .ok (Path.ofNames R)) (hclear : fs.Clear R)
    (h : host.placeBelow given (Path.ofNames S) name fs = (.ok copy, gs)) :
    ¬ S <+: R ++ [name] ∧ ¬ R ++ [name] <+: S ∧ gs.Free host.cwd copy.path (R ++ [name]) ∧
      Spared host fs gs copy S (R ++ [name]) := by
  obtain ⟨hwg, -, -, hmade⟩ := placeBelow_confined hw hname hR hsettled h
  obtain ⟨hover, hfree⟩ := hmade copy rfl
  obtain ⟨m, hm⟩ := isDirAt_iff.mp hS
  have hWplain : PlainPlace (R ++ [name]) := by simpa using ⟨hR, hname.toPlainName⟩
  obtain ⟨hSW, hWS⟩ := apart_of_overlaps hWplain (hw.plainPlace hm) hover
  refine ⟨hSW, hWS, hfree hclear, hwg,
    sameBelow_placeBelow hw hS hname hR hsettled hclear h, fun root hroot => ?_⟩
  obtain ⟨d, hd⟩ := placement_of_placeBelow hw hname.toPlainName h
  rw [hd] at hroot
  cases hroot

/-- Filling a place apart from the project spares it, whether or not it succeeds. -/
theorem spared_of_fill (h : Spared host fs gs copy S W) (hw : fs.WellFormed)
    (hS : fs.isDirAt S = true) (hSW : ¬ S <+: W) (hWS : ¬ W <+: S) (hswept : Swept fs gs)
    (hend : withoutEndSlashes copy.path = copy.path) (hfree : gs.Free host.cwd copy.path W)
    (skip : Exclusion) :
    SameBelow fs (host.fillWorkingCopy skip (Path.ofNames S) copy gs).2 S ∧
      ∀ copy' hs, host.fillWorkingCopy skip (Path.ofNames S) copy gs = (.ok copy', hs) →
        copy' = copy ∧ (∃ m, hs.stat host.cwd copy.path true = .ok (W, .dir m)) ∧
          Spared host fs hs copy S W := by
  obtain ⟨hwc, hchanged⟩ := copyBelow_frame h.wellFormed hend hfree skip (Path.ofNames S)
  have hfilled := h.tool hw hSW hWS hwc none (fun q hq => Or.inl (hchanged q hq))
    fun q sink _ hnone => by cases hnone
  rcases host.fillWorkingCopy_cases skip (Path.ofNames S) copy gs with ⟨hs, hcopy, hok⟩ |
    ⟨e, hs, hcopy, hgive⟩
  · rw [hcopy] at hfilled
    rw [hok]
    refine ⟨hfilled.sameBelow, fun copy' hs' heq => ?_⟩
    obtain ⟨hcopy', rfl⟩ := Prod.mk.inj heq
    obtain ⟨-, -, hstands⟩ := leads_of_copyBelow hw hS hswept h.wellFormed hend hfree hcopy
    exact ⟨(Except.ok.inj hcopy').symm, hstands, hfilled⟩
  · rw [hcopy] at hfilled
    rw [hgive]
    rcases host.abandon_cases copy e hs with he | ⟨root, ks, hroot, hgone, he⟩
    · rw [he]
      exact ⟨hfilled.sameBelow, fun copy' hs' heq => by cases heq⟩
    · rw [he]
      exact ⟨hfilled.sameBelow_removeTree hw hS hroot hgone, fun copy' hs' heq => by cases heq⟩

/-- The place of a copy is made and spares the project, or it is not made. -/
theorem spared_of_placeWorkingCopy (hw : fs.WellFormed) (hS : fs.isDirAt S = true)
    (hname : IsName name) (hsource : request.source = Path.ofNames S)
    (hclear : ∀ given R, request.destination = some given → PlainPlace R →
      fs.settledDestination host.cwd given = .ok (Path.ofNames R) → fs.Clear R)
    {r : Except CopyError WorkingCopy}
    (h : host.placeWorkingCopy request settings name fs = (r, gs))
    (hapart : ∀ copy root F, r = .ok copy → copy.placement = .temporary root →
      fs.lookup host.cwd (withoutEndSlashes root) false = .ok (.vacant F) → ¬ S <+: F) :
    SameBelow fs gs S ∧ ∀ copy, r = .ok copy → ∃ W, ¬ S <+: W ∧ ¬ W <+: S ∧
      withoutEndSlashes copy.path = copy.path ∧ gs.Free host.cwd copy.path W ∧ Swept fs gs ∧
      Spared host fs gs copy S W := by
  cases hdest : request.destination with
  | none =>
    rcases placeWorkingCopy_temporary hdest host settings name fs with ⟨e, he⟩ |
      ⟨root, hs, hmade, hok⟩
    · rw [he] at h
      obtain ⟨rfl, rfl⟩ := Prod.mk.inj h
      exact ⟨fun _ _ => rfl, fun copy heq => by cases heq⟩
    · rw [hok] at h
      obtain ⟨rfl, rfl⟩ := Prod.mk.inj h
      obtain ⟨W, hSW, hWS, hready, hspared⟩ :=
        spared_of_createDir hw hS hname hmade fun F => hapart _ root F rfl rfl
      refine ⟨hspared.sameBelow, fun copy heq => ?_⟩
      obtain rfl := Except.ok.inj heq
      exact ⟨W, hSW, hWS, hready.noEndSlash, hready.free, hready.swept, hspared⟩
  | some given =>
    have hbelow : host.placeBelow given (Path.ofNames S) name fs = (r, gs) := by
      unfold placeWorkingCopy at h
      rwa [hdest, hsource] at h
    cases hsettled : fs.settledDestination host.cwd given with
    | error e =>
      rw [placeBelow_of_unsettled hsettled] at hbelow
      obtain ⟨rfl, rfl⟩ := Prod.mk.inj hbelow
      exact ⟨fun _ _ => rfl, fun copy heq => by cases heq⟩
    | ok d =>
      obtain ⟨R, hR, rfl⟩ := settledDestination_eq_ok hw hsettled
      have hR' := hclear given R hdest hR hsettled
      refine ⟨sameBelow_placeBelow hw hS hname hR hsettled hR' hbelow, fun copy heq => ?_⟩
      subst heq
      obtain ⟨W, hready⟩ := ready_of_placeBelow hw hname hbelow
      obtain ⟨hSW, hWS, hfree, hspared⟩ :=
        spared_of_placeBelow hw hS hname hR hsettled hR' hbelow
      exact ⟨_, hSW, hWS, hready.noEndSlash, hfree, hready.swept, hspared⟩

/-- A copy on a clear way whose place is apart from the project spares it. -/
theorem spared_of_clear (hw : fs.WellFormed) (hS : fs.isDirAt S = true)
    (hsource : request.source = Path.ofNames S)
    (hclear : ∀ given R, request.destination = some given → PlainPlace R →
      fs.settledDestination host.cwd given = .ok (Path.ofNames R) → fs.Clear R)
    {skip? : Except CopyError Exclusion} (hapart : host.TempApart skip? request settings fs S) :
    SameBelow fs (host.prepareCopy skip? request settings fs).2 S ∧
      SameBelow fs (host.copyProject skip? request settings fs).2 S ∧
      ∀ copy gs, host.copyProject skip? request settings fs = (.ok copy, gs) →
        ∃ W m, gs.stat host.cwd copy.path true = .ok (W, .dir m) ∧ ¬ S <+: W ∧ ¬ W <+: S ∧
          Spared host fs gs copy S W := by
  unfold copyProject
  rw [Effect.bind_apply]
  rcases host.prepareCopy_cases skip? request settings fs with ⟨e, he⟩ |
    ⟨name, skip, hproject, -, ⟨e, hs, hplace, he⟩ | ⟨copy, hs, hplace, hok⟩⟩
  · rw [he]
    exact ⟨fun _ _ => rfl, fun _ _ => rfl, fun copy gs h => by cases h⟩
  · rw [hsource] at hproject
    obtain ⟨hname, -⟩ := projectName_eq_ok hw hS hproject
    obtain ⟨hsame, -⟩ := spared_of_placeWorkingCopy hw hS hname hsource hclear hplace
      fun copy root F heq => by cases heq
    rw [he]
    exact ⟨hsame, hsame, fun copy gs h => by cases h⟩
  · rw [hsource] at hproject
    obtain ⟨hname, -⟩ := projectName_eq_ok hw hS hproject
    obtain ⟨hsame, hmade⟩ := spared_of_placeWorkingCopy hw hS hname hsource hclear hplace
      fun copy' root F heq => by
        obtain rfl := Except.ok.inj heq
        exact hapart skip copy hs root F hok
    obtain ⟨W, hSW, hWS, hend, hfree, hswept, hspared⟩ := hmade copy rfl
    obtain ⟨hfilled, hstands⟩ := spared_of_fill hspared hw hS hSW hWS hswept hend hfree skip
    rw [hok, hsource]
    refine ⟨hsame, hfilled, fun copy' gs h => ?_⟩
    obtain ⟨rfl, ⟨m, hm⟩, hspared'⟩ := hstands copy' gs h
    exact ⟨W, m, hm, hSW, hWS, hspared'⟩

/-- A copy that leaves the project as it is when its place is made, and when it is filled, is apart
from it: its directory is in the second file system and not in the first. -/
theorem apart_of_sameBelow (hw : fs.WellFormed) (hS : fs.isDirAt S = true) (hname : IsName name)
    {skip : Exclusion} (hplace : host.placeBelow given (Path.ofNames S) name fs = (.ok copy, hs))
    (hcopy : copyBelow host.cwd skip (Path.ofNames S) copy.path hs = (.ok (), gs))
    (hplaced : SameBelow fs hs S) (hfilled : SameBelow fs gs S) :
    ∃ W m, gs.stat host.cwd copy.path true = .ok (W, .dir m) ∧ ¬ S <+: W ∧ ¬ W <+: S ∧
      Spared host fs gs copy S W := by
  obtain ⟨W, hready⟩ := ready_of_placeBelow hw hname hplace
  obtain ⟨hv, -, m, hstands⟩ := leads_of_copyBelow hw hS hready.swept hready.wellFormed
    hready.noEndSlash hready.free hcopy
  have hnone : hs.get? W = none := hready.wellFormed.get?_eq_none_of_vacant hv (List.prefix_refl W)
  refine ⟨W, m, hstands, fun hSW => ?_, fun hWS => ?_, ?_, hfilled, fun root hroot => ?_⟩
  · have hdir := get?_of_lookup (stat_eq_ok_iff.mp hstands)
    rw [hfilled W hSW, ← hplaced W hSW, hnone] at hdir
    cases hdir
  · have hgone := hready.wellFormed.get?_eq_none_of_vacant hv hWS
    rw [hplaced S (List.prefix_refl S)] at hgone
    rw [FileSystem.isDirAt, hgone] at hS
    cases hS
  · have hframe := copyBelow_frame hready.wellFormed hready.noEndSlash hready.free skip
      (Path.ofNames S)
    rw [hcopy] at hframe
    exact hframe.1
  · obtain ⟨d, hd⟩ := placement_of_placeBelow hw hname.toPlainName hplace
    rw [hd] at hroot
    cases hroot

/-- A copy whose place and whose way are apart from the project spares it. -/
theorem spared_of_copy (hw : fs.WellFormed) (hS : fs.isDirAt S = true)
    (hsource : request.source = Path.ofNames S) {skip? : Except CopyError Exclusion}
    (htemp : host.TempApart skip? request settings fs S)
    (hway : host.WayApart skip? request settings fs S) :
    SameBelow fs (host.prepareCopy skip? request settings fs).2 S ∧
      SameBelow fs (host.copyProject skip? request settings fs).2 S ∧
      ∀ copy gs, host.copyProject skip? request settings fs = (.ok copy, gs) →
        ∃ W m, gs.stat host.cwd copy.path true = .ok (W, .dir m) ∧ ¬ S <+: W ∧ ¬ W <+: S ∧
          Spared host fs gs copy S W := by
  by_cases hclear : ∀ given R, request.destination = some given → PlainPlace R →
      fs.settledDestination host.cwd given = .ok (Path.ofNames R) → fs.Clear R
  · exact spared_of_clear hw hS hsource hclear htemp
  · simp only [not_forall] at hclear
    obtain ⟨given, R, hdest, hR, hsettled, hnot⟩ := hclear
    obtain ⟨hplaced, hfilled⟩ := (hway given R hdest hR hsettled).resolve_left hnot
    refine ⟨hplaced, hfilled, fun copy gs h => ?_⟩
    rw [h] at hfilled
    obtain ⟨name, skip, hs, -, hproject, hplace, hprepare, hcopy⟩ := copyProject_eq_ok h
    rw [hprepare] at hplaced
    rw [hsource] at hproject hcopy
    have hbelow : host.placeBelow given (Path.ofNames S) name fs = (.ok copy, hs) := by
      unfold placeWorkingCopy at hplace
      rwa [hdest, hsource] at hplace
    exact apart_of_sameBelow hw hS (projectName_eq_ok hw hS hproject).1 hbelow hcopy hplaced hfilled

end Host

end CodeIndex

import CodeIndex.Indexing
import CodeIndex.Proofs.Effect
import CodeIndex.Proofs.FileSystem.Straight
import CodeIndex.Proofs.Listing

/-!
# Where an index comes from

When the analyzer has succeeded, its index is looked for, by what is there then. An index that was
there before is found as well.

* `FileSystem.Leads` : where a path leads, however long its text is;
* `FileSystem.listingByExtension_ordered` : which files of an extension there are, and in which
  order;
* `FileSystem.Shallowest` : the least file of an extension below a directory;
* `FileSystem.searchIndex_cases`, `FileSystem.locateIndex_cases` : what is found in a working copy;
* `FileSystem.locateIndex_eq_ok` : an index that is found would have been found before if its path
  led to the same file then;
* `Host.FindsOwn`, `Host.MissesOld` : what is found is what the analyzer left;
* `Host.finds_own_iff` : this is so for all analyzers exactly if no index is found before.
-/

namespace CodeIndex

open FileSystem

variable {host : Host} {fs gs : FileSystem} {cwd q W : Place} {path root index : Path} {e : Entry}
  {m : Nat} {ns ms : List String} {copy : WorkingCopy} {call : IndexerCall} {extension : String}
  {sighting : Sighting}

namespace FileSystem

/-- The way of a path leads to an entry. How long its text is does not matter. -/
def Leads (fs : FileSystem) (cwd : Place) (path : Path) (q : Place) (e : Entry) : Prop :=
  ∃ k ≤ maxLinks, fs.Finds true k (origin cwd path) (steps path) (.entry q e)

theorem Leads.get?_eq (h : fs.Leads cwd path q e) : fs.get? q = some e := by
  obtain ⟨k, -, hf⟩ := h
  exact hf.get?_eq

/-- What is below a directory is where a path leads that goes on below that of the directory. -/
theorem leads_join (hw : fs.WellFormed) (hW : fs.stat cwd root true = .ok (W, .dir m))
    (hne : ns ≠ []) (he : fs.get? (W ++ ns) = some e) (hl : e.isLink = false) :
    fs.Leads cwd (root.join (relativePath ns)) (W ++ ns) e := by
  have hlook := stat_eq_ok_iff.mp hW
  obtain ⟨htext, -, -⟩ := lookup_eq_ok_iff.mp hlook
  obtain ⟨k, hk, hpath⟩ := finds_namesOf hlook
  have hns : PlainPlace ns := fun n hn => hw.plainPlace he n (List.mem_append_right W hn)
  have hrel : (relativePath ns).isAbsolute = false := Path.isAbsolute_relative hne hns
  refine ⟨k + 0, hk, ?_⟩
  rw [origin_join cwd htext hrel, steps_join htext hrel (Path.joinWith_ne_empty hne hns),
    relativePath, steps_relative hns]
  exact hpath.append (hw.finds_entry hne he (Or.inr hl)) hne

/-! ## Searching for an index -/

/-- Below a directory there is a file of an extension. -/
structure Holds (fs : FileSystem) (W : Place) (extension : String) (ns : List String) (e : Entry) :
    Prop where
  ne_nil : ns ≠ []
  get?_eq : fs.get? (W ++ ns) = some e
  kind : e.kind = .file
  extension : (relativePath ns).extension? = some extension

/-- A listing that excludes nothing has all that is there. -/
theorem mem_listingAt_all {x : Listed} (hw : fs.WellFormed) :
    x ∈ fs.listingAt (fun _ => false) W ↔
      x.names ≠ [] ∧ ∃ e, fs.get? (W ++ x.names) = some e ∧ e.kind = x.kind := by
  have hkept : Kept (fun _ => false) x.names := fun _ _ => rfl
  rw [mem_listingAt hw, and_iff_right hkept]

/-- The files of an extension are listed, each once and the shallowest first. -/
theorem listingByExtension_eq_ok (hw : fs.WellFormed)
    (hW : fs.stat cwd root true = .ok (W, .dir m)) (extension : String) :
    ∃ L : List (List String), fs.listingByExtension cwd (fun _ => false) root extension =
        .ok (L.map fun ns => root.join (relativePath ns)) ∧
      (∀ ns, ns ∈ L ↔ ∃ e, fs.Holds W extension ns e) ∧
      L.Pairwise fun ns ms => shallowerLe ns ms = true ∧ ns ≠ ms := by
  rw [listingByExtension, listing_eq hw, hW]
  refine ⟨_, rfl, fun ns => ?_, ?_⟩
  · rw [(sortBy_perm _ _).mem_iff, List.mem_map]
    constructor
    · rintro ⟨x, hx, rfl⟩
      obtain ⟨hlisted, hkeep⟩ := List.mem_filter.mp hx
      obtain ⟨hne, e, he, hkind⟩ := (mem_listingAt_all hw).mp hlisted
      simp only [Bool.and_eq_true, decide_eq_true_eq] at hkeep
      exact ⟨e, hne, he, hkind.trans hkeep.1, hkeep.2⟩
    · rintro ⟨e, hne, he, hkind, hext⟩
      refine ⟨⟨ns, .file⟩, List.mem_filter.mpr ⟨?_, ?_⟩, rfl⟩
      · exact (mem_listingAt_all hw).mpr ⟨hne, e, he, hkind⟩
      · rw [Listed.path, hext]
        simp
  · have hsorted := pairwise_sortBy shallowerLe_total (fun a b c => shallowerLe_trans)
      (((fs.listingAt (fun _ => false) W).filter fun e =>
        e.kind = .file && e.path.extension? = some extension).map Listed.names)
    have hnodup := (nodup_listingAt hw (fun _ => false) W).sublist
      ((List.filter_sublist (p := fun e => e.kind = .file &&
        e.path.extension? = some extension)).map Listed.names)
    exact hsorted.and ((sortBy_perm _ _).nodup_iff.mpr hnodup)

/-- A file of the extension below a directory, before which no other comes. -/
structure Shallowest (fs : FileSystem) (W : Place) (extension : String) (ns : List String) :
    Prop where
  holds : ∃ e, fs.Holds W extension ns e
  least : ∀ ms e, fs.Holds W extension ms e →
    ms = ns ∨ (relativePath ns).Shallower (relativePath ms)

theorem Holds.plainPlace (hw : fs.WellFormed) (h : fs.Holds W extension ns e) : PlainPlace ns :=
  fun n hn => hw.plainPlace h.get?_eq n (List.mem_append_right W hn)

/-- The order of the paths of files is that of their names. -/
theorem Holds.shallower_iff {e' : Entry} (hw : fs.WellFormed) (h : fs.Holds W extension ns e)
    (h' : fs.Holds W extension ms e') :
    (relativePath ns).Shallower (relativePath ms) ↔ shallowerLe ns ms = true ∧ ns ≠ ms :=
  Path.shallower_relative (h.plainPlace hw) (h'.plainPlace hw) h.ne_nil h'.ne_nil

/-- There are no two least files. -/
theorem Shallowest.unique (hw : fs.WellFormed) (h : fs.Shallowest W extension ns)
    (h' : fs.Shallowest W extension ms) : ns = ms := by
  obtain ⟨e, he⟩ := h.holds
  obtain ⟨e', he'⟩ := h'.holds
  rcases h.least ms e' he' with heq | hlt
  · exact heq.symm
  · rcases h'.least ns e he with heq | hlt'
    · exact heq
    · exact shallowerLe_antisymm ((he.shallower_iff hw he').mp hlt).1
        ((he'.shallower_iff hw he).mp hlt').1

/-- The files of an extension come one after the other, the shallowest first. -/
theorem listingByExtension_ordered (hw : fs.WellFormed)
    (hW : fs.stat cwd root true = .ok (W, .dir m)) (extension : String) :
    ∃ L : List (List String), fs.listingByExtension cwd (fun _ => false) root extension =
        .ok (L.map fun ns => root.join (relativePath ns)) ∧
      (∀ ns, ns ∈ L ↔ ∃ e, fs.Holds W extension ns e) ∧ L.Nodup ∧
      L.Pairwise fun ns ms => (relativePath ns).Shallower (relativePath ms) := by
  obtain ⟨L, hL, hmem, hsorted⟩ := listingByExtension_eq_ok hw hW extension
  refine ⟨L, hL, hmem, hsorted.imp fun h => h.2, hsorted.imp_of_mem fun hns hms h => ?_⟩
  obtain ⟨e, he⟩ := (hmem _).mp hns
  obtain ⟨e', he'⟩ := (hmem _).mp hms
  exact (he.shallower_iff hw he').mpr h

/-- A search finds nothing exactly if there is nothing, and otherwise the least file. -/
theorem searchIndex_cases (hw : fs.WellFormed) (hW : fs.stat cwd root true = .ok (W, .dir m))
    (extension : String) :
    ((∀ ns e, ¬ fs.Holds W extension ns e) ∧ fs.searchIndex cwd root extension = .ok none) ∨
    ∃ ns, fs.Shallowest W extension ns ∧
      fs.searchIndex cwd root extension = .ok (some (root.join (relativePath ns))) := by
  obtain ⟨L, hL, hmem, -, hsorted⟩ := listingByExtension_ordered hw hW extension
  rw [searchIndex, hL]
  cases L with
  | nil => exact Or.inl ⟨fun ns e he => List.not_mem_nil ((hmem ns).mpr ⟨e, he⟩), rfl⟩
  | cons ns rest =>
    refine Or.inr ⟨ns, ⟨(hmem ns).mp List.mem_cons_self, fun ms e he => ?_⟩, rfl⟩
    exact (List.mem_cons.mp ((hmem ms).mpr ⟨e, he⟩)).imp_right
      ((List.pairwise_cons.mp hsorted).1 ms)

end FileSystem

/-- A path at which an index may be found. -/
def IndexerCall.Allows (call : IndexerCall) (root path : Path) : Prop :=
  path = root.child call.expectedName ∨
    ∃ ns, (relativePath ns).extension? = some call.extension ∧ path = root.join (relativePath ns)

namespace FileSystem

/-- What is found of an index. -/
theorem locateIndex_cases (hw : fs.WellFormed) (hW : fs.stat cwd root true = .ok (W, .dir m))
    (call : IndexerCall) :
    fs.isFile cwd (root.child call.expectedName) = true ∧
      fs.locateIndex cwd root call = .ok (root.child call.expectedName, .expected) ∨
    fs.isFile cwd (root.child call.expectedName) = false ∧
      ((∃ ns e, fs.Holds W call.extension ns e ∧
          fs.locateIndex cwd root call = .ok (root.join (relativePath ns), .searched)) ∨
        (∀ ns e, ¬ fs.Holds W call.extension ns e) ∧
          fs.locateIndex cwd root call = .error (.noIndexLeft root call.extension)) := by
  unfold locateIndex
  dsimp only
  cases hfile : fs.isFile cwd (root.child call.expectedName) with
  | true => exact Or.inl ⟨rfl, if_pos rfl⟩
  | false =>
    rw [if_neg Bool.false_ne_true]
    refine Or.inr ⟨rfl, ?_⟩
    rcases searchIndex_cases hw hW call.extension with ⟨hnone, hmissing⟩ | ⟨ns, hleast, hfound⟩
    · rw [hmissing]
      exact Or.inr ⟨hnone, rfl⟩
    · obtain ⟨e, he⟩ := hleast.holds
      rw [hfound]
      exact Or.inl ⟨ns, e, he, rfl⟩

/-- Where the directory is there, what can go wrong is that there is no index. -/
theorem locateIndex_eq_error {c : IndexingError} (hw : fs.WellFormed)
    (hW : fs.stat cwd root true = .ok (W, .dir m)) (h : fs.locateIndex cwd root call = .error c) :
    c = .noIndexLeft root call.extension := by
  rcases locateIndex_cases hw hW call with ⟨-, hok⟩ | ⟨-, ⟨ns, e, -, hok⟩ | ⟨-, herr⟩⟩
  · rw [hok] at h
    cases h
  · rw [hok] at h
    cases h
  · rw [herr] at h
    exact (Except.error.inj h).symm

/-- What is found leads to a file. Another file system in which it leads to the same file has an
index that is found, too. -/
theorem locateIndex_eq_ok (hw : gs.WellFormed) (hW : gs.stat cwd root true = .ok (W, .dir m))
    (h : gs.locateIndex cwd root call = .ok (index, sighting)) :
    call.Allows root index ∧ ∃ q e, e.kind = .file ∧ gs.Leads cwd index q e ∧
      ∀ (fs : FileSystem) m', fs.WellFormed → fs.stat cwd root true = .ok (W, .dir m') →
        fs.Leads cwd index q e → ∃ r, fs.locateIndex cwd root call = .ok r := by
  rcases locateIndex_cases hw hW call with ⟨hfile, hok⟩ | ⟨-, ⟨ns, e, he, hok⟩ | ⟨-, herr⟩⟩
  · rw [hok] at h
    obtain ⟨rfl, rfl⟩ := Prod.mk.inj (Except.ok.inj h)
    obtain ⟨q, id, mode, bytes, hstat⟩ := isFile_iff.mp hfile
    obtain ⟨hne, hlen, hleads⟩ := lookup_eq_ok_iff.mp (stat_eq_ok_iff.mp hstat)
    refine ⟨Or.inl rfl, q, _, rfl, hleads, fun fs m' hwf hWf hold => ?_⟩
    have hstat' := stat_eq_ok_iff.mpr (lookup_eq_ok_iff.mpr ⟨hne, hlen, hold⟩)
    have hfile' := isFile_iff.mpr ⟨q, id, mode, bytes, hstat'⟩
    rcases locateIndex_cases hwf hWf call with ⟨-, hok'⟩ | ⟨hno, -⟩
    · exact ⟨_, hok'⟩
    · rw [hfile'] at hno
      cases hno
  · rw [hok] at h
    obtain ⟨rfl, rfl⟩ := Prod.mk.inj (Except.ok.inj h)
    have hl : e.isLink = false := by
      have hkind := he.kind
      cases e with
      | link t => cases hkind
      | _ => rfl
    refine ⟨Or.inr ⟨ns, he.extension, rfl⟩, W ++ ns, e, he.kind,
      leads_join hw hW he.ne_nil he.get?_eq hl, fun fs m' hwf hWf hold => ?_⟩
    rcases locateIndex_cases hwf hWf call with ⟨-, hok'⟩ | ⟨-, ⟨ns', e', -, hok'⟩ | ⟨hnone, -⟩⟩
    · exact ⟨_, hok'⟩
    · exact ⟨_, hok'⟩
    · exact absurd ⟨he.ne_nil, hold.get?_eq, he.kind, he.extension⟩ (hnone ns e)
  · rw [herr] at h
    cases h

end FileSystem

/-! ## Running the analyzer -/

/-- What is run to make an index in a working copy. -/
def IndexerCall.command (call : IndexerCall) (copy : WorkingCopy) : Command :=
  ⟨call.tool.path, [call.subcommand, "."], some copy.path⟩

namespace Host

/-- Analyzing runs the analyzer and, if it succeeds, looks for an index. -/
theorem makeIndex_apply (host : Host) (copy : WorkingCopy) (call : IndexerCall) (fs : FileSystem) :
    host.makeIndex copy call fs = match host.run call.tool.name (call.command copy) none
        call.timeout fs with
      | (.error e, gs) => (.error (.child e), gs)
      | (.ok out, gs) =>
        if out.status.success then
          match gs.locateIndex host.cwd copy.path call with
          | .error e => (.error e, gs)
          | .ok (index, sighting) =>
            (.ok ⟨index, out.status, out.stdout, out.stderr, sighting⟩, gs)
        else (.error (.unsuccessful out.status out.stderr), gs) := by
  unfold makeIndex IndexerCall.command
  rw [Effect.bind_apply, Effect.mapError]
  rcases host.run call.tool.name ⟨call.tool.path, [call.subcommand, "."], some copy.path⟩ none
    call.timeout fs with ⟨e | out, gs⟩
  · rfl
  · dsimp only
    cases out.status.success with
    | false => rfl
    | true =>
      rw [if_neg (by decide), if_pos rfl, Effect.bind_apply, Effect.look]
      dsimp only
      rcases gs.locateIndex host.cwd copy.path call with _ | ⟨_, _⟩ <;> rfl

/-- All that analyzing does to the file system is to run the analyzer. -/
theorem makeIndex_snd (host : Host) (copy : WorkingCopy) (call : IndexerCall) (fs : FileSystem) :
    (host.makeIndex copy call fs).2 =
      (host.run call.tool.name (call.command copy) none call.timeout fs).2 := by
  rw [makeIndex_apply]
  rcases host.run call.tool.name (call.command copy) none call.timeout fs with ⟨e | out, gs⟩
  · rfl
  · dsimp only
    split
    · cases gs.locateIndex host.cwd copy.path call <;> rfl
    · rfl

/-- The surroundings with other programs in them. -/
def withBehaviour (host : Host) (b : Behaviour) : Host := { host with behaviour := b }

/-- A command can be started. -/
def Starts (host : Host) (command : Command) (fs : FileSystem) : Prop :=
  host.checkTempDir fs = .ok () ∧ ∃ launch, host.launch fs command none = .ok launch

instance (command : Command) (fs : FileSystem) : Decidable (host.Starts command fs) :=
  decidable_of_iff
    (host.checkTempDir fs = .ok () ∧ (host.launch fs command none).toOption.isSome = true) <| by
      refine and_congr_right fun _ => ?_
      cases host.launch fs command none with
      | error e => exact iff_of_false nofun (by rintro ⟨launch, h⟩; cases h)
      | ok launch => exact iff_of_true rfl ⟨launch, rfl⟩

theorem starts_of_run {name : String} {command : Command} {limit : Option Nat} {out : Captured}
    (h : host.run name command none limit fs = (.ok out, gs)) : host.Starts command fs := by
  unfold run at h
  split at h
  · cases h
  · next htemp =>
    split at h
    · cases h
    · next launch hlaunch => exact ⟨htemp, launch, hlaunch⟩

/-- The analyzer does nothing at all, and succeeds. -/
def quietBehaviour : Behaviour := fun _ fs _ => .ended fs [] [] (.exited 0) 0

/-- A program that ends at once is not late. -/
theorem awaited_at_once (name : String) (limit : Option Nat) (fs : FileSystem)
    (stdout stderr : List UInt8) (status : ExitStatus) :
    awaited name limit (.ended fs stdout stderr status 0) = .ok status := by
  cases limit with
  | none => rfl
  | some limit =>
    unfold awaited wait waitFrom
    rfl

/-- A program that succeeds at once leaves what it leaves. -/
theorem run_at_once (name : String) {command : Command} (limit : Option Nat) {b : Behaviour}
    (h : host.Starts command fs)
    (hb : ∀ launch allowance, b launch fs allowance = .ended gs [] [] (.exited 0) 0) :
    ∃ out, out.status.success = true ∧
      (host.withBehaviour b).run name command none limit fs = (.ok out, gs) := by
  obtain ⟨htemp, launch, hlaunch⟩ := h
  have htemp' : (host.withBehaviour b).checkTempDir fs = .ok () := htemp
  have hlaunch' : (host.withBehaviour b).launch fs command none = .ok launch := hlaunch
  refine ⟨⟨.exited 0, Text.Utf8.decode [], Text.Utf8.decode []⟩, rfl, ?_⟩
  unfold run
  rw [htemp', hlaunch']
  dsimp only [withBehaviour]
  rw [hb, awaited_at_once]
  rfl

theorem run_idle (name : String) {command : Command} (limit : Option Nat)
    (h : host.Starts command fs) : ∃ out, out.status.success = true ∧
      (host.withBehaviour quietBehaviour).run name command none limit fs = (.ok out, fs) :=
  run_at_once name limit h fun _ _ => rfl

/-- An index that was made was found when the analyzer had succeeded. -/
theorem makeIndex_eq_ok {found : FoundIndex} (h : host.makeIndex copy call fs = (.ok found, gs)) :
    ∃ out, host.run call.tool.name (call.command copy) none call.timeout fs = (.ok out, gs) ∧
      gs.locateIndex host.cwd copy.path call = .ok (found.index, found.sighting) := by
  rw [makeIndex_apply] at h
  rcases hrun : host.run call.tool.name (call.command copy) none call.timeout fs with ⟨e | out, hs⟩
  · rw [hrun] at h
    cases h
  · rw [hrun] at h
    dsimp only at h
    split at h
    · split at h
      · cases h
      · next index sighting hlocate =>
        obtain ⟨hfound, rfl⟩ := Prod.mk.inj h
        obtain rfl := Except.ok.inj hfound
        exact ⟨out, rfl, hlocate⟩
    · cases h

/-- An analyzer that has succeeded leaves what is found. -/
theorem makeIndex_of_run {out : Captured}
    (hrun : host.run call.tool.name (call.command copy) none call.timeout fs = (.ok out, gs))
    (hsuccess : out.status.success = true) :
    host.makeIndex copy call fs = match gs.locateIndex host.cwd copy.path call with
      | .error e => (.error e, gs)
      | .ok (index, sighting) =>
        (.ok ⟨index, out.status, out.stdout, out.stderr, sighting⟩, gs) := by
  rw [makeIndex_apply, hrun]
  exact if_pos hsuccess

/-- The analyzer leaves a well-formed file system, with the copy where it was. -/
def LeavesCopy (host : Host) (copy : WorkingCopy) (call : IndexerCall) (fs : FileSystem)
    (W : Place) : Prop :=
  let gs := (host.makeIndex copy call fs).2
  gs.WellFormed ∧ ∃ m, gs.stat host.cwd copy.path true = .ok (W, .dir m)

/-- An index that is found is one that the analyzer left: its path leads to a file to which it did
not lead before. -/
def FindsOwn (host : Host) (copy : WorkingCopy) (call : IndexerCall) (fs : FileSystem) : Prop :=
  ∀ found gs, host.makeIndex copy call fs = (.ok found, gs) →
    ∃ q e, e.kind = .file ∧ gs.Leads host.cwd found.index q e ∧
      ¬ fs.Leads host.cwd found.index q e

/-- An analyzer that succeeds without leaving a file that may be the index is said to have left
none. -/
def MissesOld (host : Host) (copy : WorkingCopy) (call : IndexerCall) (fs : FileSystem) : Prop :=
  ∀ out gs, host.run call.tool.name (call.command copy) none call.timeout fs = (.ok out, gs) →
    out.status.success = true →
    (∀ path q e, call.Allows copy.path path → e.kind = .file → gs.Leads host.cwd path q e →
      fs.Leads host.cwd path q e) →
    host.makeIndex copy call fs = (.error (.noIndexLeft copy.path call.extension), gs)

/-- All analyzers find what they left themselves, and miss what they did not, exactly if no index is
to be found before, or none can be started. -/
theorem finds_own_iff (hw : fs.WellFormed)
    (hW : fs.stat host.cwd copy.path true = .ok (W, .dir m)) :
    (∀ b, (host.withBehaviour b).LeavesCopy copy call fs W →
      (host.withBehaviour b).FindsOwn copy call fs ∧
        (host.withBehaviour b).MissesOld copy call fs) ↔
    (host.Starts (call.command copy) fs → ∀ r, fs.locateIndex host.cwd copy.path call ≠ .ok r) := by
  constructor
  · intro hall hstarts r hr
    -- An analyzer that does nothing finds what is there.
    obtain ⟨out, hsuccess, hrun⟩ := run_idle call.tool.name call.timeout hstarts
    have hmake := makeIndex_of_run hrun hsuccess
    have hr' : fs.locateIndex (host.withBehaviour quietBehaviour).cwd copy.path call = .ok r := hr
    rw [hr'] at hmake
    have hleaves : (host.withBehaviour quietBehaviour).LeavesCopy copy call fs W := by
      unfold LeavesCopy
      rw [hmake]
      exact ⟨hw, m, hW⟩
    obtain ⟨hown, -⟩ := hall quietBehaviour hleaves
    obtain ⟨q, e, -, hthere, hnew⟩ := hown _ _ hmake
    exact hnew hthere
  · intro hnone b hleaves
    have hfiles : ∀ {out gs}, (host.withBehaviour b).run call.tool.name (call.command copy) none
        call.timeout fs = (.ok out, gs) → gs.WellFormed ∧
          (∃ m, gs.stat host.cwd copy.path true = .ok (W, .dir m)) ∧
          ∀ r, fs.locateIndex host.cwd copy.path call ≠ .ok r := by
      intro out gs hrun
      have hstarts : (host.withBehaviour b).Starts (call.command copy) fs := starts_of_run hrun
      unfold LeavesCopy at hleaves
      rw [makeIndex_snd, hrun] at hleaves
      exact ⟨hleaves.1, hleaves.2, hnone hstarts⟩
    refine ⟨fun found gs hmake => ?_, fun out gs hrun hsuccess hsame => ?_⟩
    · obtain ⟨out, hrun, hlocate⟩ := makeIndex_eq_ok hmake
      obtain ⟨hwg, ⟨m', hm'⟩, hmissing⟩ := hfiles hrun
      obtain ⟨-, q, e, hkind, hleads, hback⟩ := locateIndex_eq_ok hwg hm' hlocate
      refine ⟨q, e, hkind, hleads, fun hold => ?_⟩
      obtain ⟨r, hr⟩ := hback fs m hw hW hold
      exact hmissing r hr
    · obtain ⟨hwg, ⟨m', hm'⟩, hmissing⟩ := hfiles hrun
      have hmake := makeIndex_of_run hrun hsuccess
      cases hlocate : gs.locateIndex host.cwd copy.path call with
      | ok found =>
        obtain ⟨hallowed, q, e, hkind, hleads, hback⟩ := locateIndex_eq_ok hwg hm' hlocate
        obtain ⟨r, hr⟩ := hback fs m hw hW (hsame _ q e hallowed hkind hleads)
        exact absurd hr (hmissing r)
      | error err =>
        obtain rfl := locateIndex_eq_error hwg hm' hlocate
        rw [hmake]
        have hlocate' : gs.locateIndex (host.withBehaviour b).cwd copy.path call =
            .error (.noIndexLeft copy.path call.extension) := hlocate
        rw [hlocate']

/-! ## Two copies, one with an index -/

/-- A tool, a working copy, and more. -/
def copyWith (more : List (Place × Entry)) (next : Nat) : FileSystem where
  entries := more ++ [(["tmp"], .dir 0o777), (["bin"], .dir 0o755),
    (["bin", "ana"], .file 0 0o755 machineCodeMark), (["work"], .dir 0o755),
    (["work", "ws"], .dir 0o755)]
  next := next

/-- The working copy. -/
def plainCopy : WorkingCopy := ⟨⟨"/work/ws"⟩, .chosen ⟨"/work"⟩⟩

/-- How an analyzer without a limit is run. -/
def indexerCall : IndexerCall := ⟨⟨.analyzer .primary, "ana", ⟨"/bin/ana"⟩⟩, "scip", "scip", none⟩

/-- Surroundings in which the analyzer leaves an index, unless there is one. -/
def leavingHost : Host :=
  idleHost.withBehaviour fun _ fs _ =>
    if fs.get? ["work", "ws", "index.scip"] = none then
      .ended (fs.putNewFile ["work", "ws", "index.scip"] fileMode) [] [] (.exited 0) 0
    else .ended fs [] [] (.exited 0) 0

/-- The index that is found. -/
def foundIndex : FoundIndex := ⟨⟨"/work/ws/index.scip"⟩, .exited 0, "", "", .expected⟩

/-- The working copy with an index. -/
def copyWithIndex : FileSystem := copyWith [(["work", "ws", "index.scip"], .file 1 0o644 [])] 2

/-- In a copy without an index, what the analyzer leaves is found. -/
theorem own_index_found : leavingHost.FindsOwn plainCopy indexerCall (copyWith [] 1) ∧
    leavingHost.MissesOld plainCopy indexerCall (copyWith [] 1) := by
  have hW : (copyWith [] 1).stat leavingHost.cwd plainCopy.path true =
      .ok (["work", "ws"], .dir 0o755) := by decide +kernel
  have hnone : (copyWith [] 1).locateIndex leavingHost.cwd plainCopy.path indexerCall =
      .error (.noIndexLeft plainCopy.path "scip") := by decide +kernel
  have hmake : leavingHost.makeIndex plainCopy indexerCall (copyWith [] 1) =
      (.ok foundIndex, copyWithIndex) := by
    change @Eq (Except IndexingError FoundIndex × FileSystem) _ _
    decide +kernel
  have hleaves : leavingHost.LeavesCopy plainCopy indexerCall (copyWith [] 1) ["work", "ws"] := by
    unfold LeavesCopy
    rw [hmake]
    exact ⟨by decide, 0o755, by decide +kernel⟩
  refine (finds_own_iff (by decide) hW).mpr (fun _ r hr => ?_) leavingHost.behaviour hleaves
  rw [hnone] at hr
  cases hr

/-- In a copy with an index, an analyzer that does nothing is taken for the one that left it. -/
theorem stale_index_found :
    (idleHost.withBehaviour quietBehaviour).makeIndex plainCopy indexerCall copyWithIndex =
      (.ok foundIndex, copyWithIndex) ∧
    ¬ (idleHost.withBehaviour quietBehaviour).FindsOwn plainCopy indexerCall copyWithIndex := by
  have hmake : (idleHost.withBehaviour quietBehaviour).makeIndex plainCopy indexerCall
      copyWithIndex = (.ok foundIndex, copyWithIndex) := by
    change @Eq (Except IndexingError FoundIndex × FileSystem) _ _
    decide +kernel
  refine ⟨hmake, fun hown => ?_⟩
  obtain ⟨q, e, -, hthere, hnew⟩ := hown _ _ hmake
  exact hnew hthere

end Host

end CodeIndex

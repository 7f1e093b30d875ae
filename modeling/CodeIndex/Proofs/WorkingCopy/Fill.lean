import CodeIndex.Proofs.Effect
import CodeIndex.Proofs.FileSystem.Writing
import CodeIndex.Proofs.Listing
import CodeIndex.WorkingCopy.Fill

/-!
# Copying trees

The entries of a listing are copied one by one to an empty directory. What is above an entry comes
before it, so each finds its directory there and its own place free, and nothing is ever written
through a link or over another entry.

* `Entry.likeness` : what a copy keeps of an entry;
* `Route` : a directory, and an empty one to which it is copied;
* `Copied` : the entries that are done have been copied, and nothing else has happened;
* `Copied.step` : copying one more entry keeps this;
* `Copied.run` : so does copying the rest, however far it comes.
-/

namespace CodeIndex

open FileSystem

/-- What a copy keeps of an entry: all but the identity of a file and the mode of a directory. -/
def Entry.likeness : Entry → Entry
  | .dir _ => .dir dirMode
  | .file _ mode bytes => .file 0 mode bytes
  | .link target => .link target
  | .device kind => .device kind

theorem Entry.isDir_of_likeness {x y : Entry} (h : y.likeness = x.likeness) :
    y.isDir = x.isDir := by
  cases x <;> cases y <;> simp_all [likeness, isDir]

namespace FileSystem

variable {fs gs hs : FileSystem} {cwd S W : Place} {source target : Path} {skip : Exclusion}
  {done rest : List Listed} {e : Listed} {x y : Entry}

/-! ## Copying one entry -/

theorem copyRegular_eq_ok (h : fs.copyRegular cwd source target = .ok gs) :
    ∃ p id m bytes, fs.stat cwd source true = .ok (p, .file id m bytes) ∧
      fs.copyFile cwd source target = .ok gs := by
  have hcopy : ∀ {r : Except Errno FileSystem}, r.mapError IoError.os = .ok gs → r = .ok gs := by
    intro r hr
    cases r with
    | error e => cases hr
    | ok fs' => rw [Except.ok.inj hr]
  unfold copyRegular entry? at h
  cases hstat : fs.stat cwd source true with
  | error e =>
    rw [hstat] at h
    have hfails : fs.copyFile cwd source target = .error e := by rw [copyFile, hstat]
    rw [hcopy h] at hfails
    cases hfails
  | ok r =>
    obtain ⟨p, x⟩ := r
    rw [hstat] at h
    cases x with
    | file id m bytes => exact ⟨p, id, m, bytes, rfl, hcopy h⟩
    | _ => cases h

/-- A file is not copied if the path of the copy is too long. -/
theorem length_of_copyFile {p : Place} {id m : Nat} {bytes : List UInt8}
    (hstat : fs.stat cwd source true = .ok (p, .file id m bytes))
    (hend : withoutEndSlashes target = target) (h : fs.copyFile cwd source target = .ok gs) :
    target.text.utf8ByteSize ≤ maxPath := by
  by_contra hlong
  have hopen : fs.openWrite cwd target m = .error .nameTooLong := by
    unfold openWrite
    simp only [hend, lookup_of_long (Nat.lt_of_not_le hlong)]
  unfold copyFile at h
  rw [hstat] at h
  dsimp only at h
  rw [hopen] at h
  cases h

theorem copyLink_eq_ok (h : fs.copyLink cwd source target = .ok gs) :
    ∃ p t q, fs.stat cwd source false = .ok (p, .link t) ∧
      fs.lookup cwd target false = .ok (.vacant q) ∧ gs = fs.put q (.link t) := by
  unfold copyLink at h
  cases hread : fs.readLink cwd source with
  | error e => rw [hread] at h; cases h
  | ok t =>
    rw [hread] at h
    change fs.createLink cwd t target = .ok gs at h
    unfold readLink at hread
    split at hread
    · next p t' hstat =>
      obtain rfl := Except.ok.inj hread
      unfold createLink at h
      split at h
      · cases h
      · split at h
        · next q hq => exact ⟨p, t', q, hstat, hq, (Except.ok.inj h).symm⟩
        · cases h
        · cases h
    · cases hread
    · cases hread

/-! ## Copying one after the other -/

/-- A directory `S`, and an empty directory `W` to which it is copied. -/
structure Route (fs : FileSystem) (cwd : Place) (source target : Path) (S W : Place) : Prop where
  wellFormed : fs.WellFormed
  source : ∃ m, fs.lookup cwd source true = .ok (.entry S (.dir m))
  target : ∃ m, fs.lookup cwd target true = .ok (.entry W (.dir m))
  empty : ∀ ns ≠ [], fs.get? (W ++ ns) = none

/-- The entries that are done have been copied from below `S` to below `W`, and nothing else has
happened. -/
structure Copied (fs gs : FileSystem) (S W : Place) (done : List Listed) : Prop where
  wellFormed : gs.WellFormed
  outside : ∀ q, ¬ (W <+: q ∧ q ≠ W) → gs.get? q = fs.get? q
  inside : ∀ ns ≠ [], (gs.get? (W ++ ns)).map Entry.likeness =
    if ns ∈ done.map Listed.names then (fs.get? (S ++ ns)).map Entry.likeness else none

/-- Nothing has been copied yet. -/
theorem Route.copied (h : Route fs cwd source target S W) : Copied fs fs S W [] :=
  ⟨h.wellFormed, fun _ _ => rfl, fun ns hne => by simp [h.empty ns hne]⟩

namespace Copied

/-- What was there is there. -/
theorem mono (h : Copied fs gs S W done) (hr : Route fs cwd source target S W) {q : Place}
    (hx : fs.get? q = some x) : gs.get? q = some x := by
  rw [h.outside q, hx]
  rintro ⟨⟨ns, rfl⟩, hne⟩
  rw [hr.empty ns fun hnil => hne (by rw [hnil, List.append_nil])] at hx
  cases hx

theorem leads_source (h : Copied fs gs S W done) (hr : Route fs cwd source target S W) :
    ∃ m, gs.lookup cwd source true = .ok (.entry S (.dir m)) := by
  obtain ⟨m, hm⟩ := hr.source
  exact ⟨m, lookup_mono (fun q x => h.mono hr) hm⟩

theorem leads_target (h : Copied fs gs S W done) (hr : Route fs cwd source target S W) :
    ∃ m, gs.lookup cwd target true = .ok (.entry W (.dir m)) := by
  obtain ⟨m, hm⟩ := hr.target
  exact ⟨m, lookup_mono (fun q x => h.mono hr) hm⟩

/-- The directory of the entry that is next is there, and its own place is free. -/
theorem next_free (h : Copied fs gs S W done) (hr : Route fs cwd source target S W)
    (hL : fs.listingAt skip S = done ++ e :: rest) :
    ∃ ms n, e.names = ms ++ [n] ∧ IsName n ∧ gs.isDirAt (W ++ ms) = true ∧
      gs.get? (W ++ e.names) = none := by
  have he : e ∈ fs.listingAt skip S := by simp [hL]
  obtain ⟨hne, -, z, hz, -⟩ := (mem_listingAt hr.wellFormed).mp he
  have hfree : gs.get? (W ++ e.names) = none := by
    have hnodup := nodup_listingAt hr.wellFormed skip S
    rw [hL, List.map_append, List.map_cons, List.nodup_append] at hnodup
    have hnot : e.names ∉ done.map Listed.names :=
      fun hmem => hnodup.2.2 e.names hmem e.names (List.mem_cons_self) rfl
    have hin := h.inside e.names hne
    rw [if_neg hnot] at hin
    exact Option.map_eq_none_iff.mp hin
  obtain ⟨ms, n, hsplit⟩ : ∃ ms n, e.names = ms ++ [n] :=
    ⟨_, _, (List.dropLast_concat_getLast hne).symm⟩
  refine ⟨ms, n, hsplit, hr.wellFormed.isName hz n (by simp [hsplit]), ?_, hfree⟩
  by_cases hms : ms = []
  · obtain ⟨m, hm⟩ := h.leads_target hr
    rw [hms, List.append_nil]
    exact isDirAt_iff.mpr ⟨m, get?_of_lookup hm⟩
  · have hd : ⟨ms, .dir⟩ ∈ done :=
      mem_of_isPrefix hr.wellFormed hL hms ⟨[n], hsplit.symm⟩ (by simp [hsplit])
    have hlisted : ⟨ms, .dir⟩ ∈ fs.listingAt skip S := by simp [hL, hd]
    obtain ⟨-, -, w, hw, hwkind⟩ := (mem_listingAt hr.wellFormed).mp hlisted
    have hin := h.inside ms hms
    rw [if_pos (List.mem_map.mpr ⟨_, hd, rfl⟩), hw, Option.map_some,
      Option.map_eq_some_iff] at hin
    obtain ⟨v, hv, hlike⟩ := hin
    have hdir : v.isDir = true := by
      rw [Entry.isDir_of_likeness hlike]
      cases w <;> simp_all [Entry.kind, Entry.isDir]
    rw [isDirAt, hv]
    exact hdir

/-- The path of the entry that is next leads to its place, unless it is too long. -/
theorem lookup_target (h : Copied fs gs S W done) (hr : Route fs cwd source target S W)
    (hL : fs.listingAt skip S = done ++ e :: rest)
    (hlen : (target.join e.path).text.utf8ByteSize ≤ maxPath) (follow : Bool) :
    gs.lookup cwd (target.join e.path) follow = .ok (.vacant (W ++ e.names)) := by
  obtain ⟨ms, n, hsplit, hn, hdir, hfree⟩ := h.next_free hr hL
  obtain ⟨m, hm⟩ := h.leads_target hr
  obtain ⟨m', hm'⟩ := isDirAt_iff.mp hdir
  have hplain : PlainPlace e.names := by
    rw [hsplit, plainPlace_append, plainPlace_cons]
    refine ⟨fun k hk => (h.wellFormed.isName hm' k (by simp [hk])).toPlainName, hn.toPlainName,
      plainPlace_nil⟩
  refine lookup_join hm (by simp [hsplit]) hplain ?_ hlen
  rw [hsplit, ← List.append_assoc] at hfree ⊢
  exact (h.wellFormed.finds_dir W ms hm' rfl).append (finds_vacant hdir hn hfree) (by simp)

/-- What the path of the next entry leads to in the source. -/
theorem stat_source (h : Copied fs gs S W done) (hr : Route fs cwd source target S W)
    (hne : e.names ≠ []) (hx : fs.get? (S ++ e.names) = some x) {follow : Bool}
    (hl : follow = false ∨ x.isLink = false) {p : Place}
    (hstat : gs.stat cwd (source.join e.path) follow = .ok (p, y)) : y = x := by
  obtain ⟨m, hm⟩ := h.leads_source hr
  have hx' := h.mono hr hx
  have hplain : PlainPlace e.names :=
    (plainPlace_append.mp (h.wellFormed.plainPlace hx')).2
  obtain ⟨k, -, hf⟩ := finds_of_lookup_join hm hne hplain (stat_eq_ok_iff.mp hstat)
  have hwalk : gs.Finds follow 0 S e.names (.entry (S ++ e.names) x) :=
    h.wellFormed.finds_entry hne hx' hl
  obtain ⟨-, heq⟩ := hf.unique hwalk
  exact (Found.entry.inj heq).2

/-- An entry that is made like the next one is a copy of it. -/
theorem add (h : Copied fs gs S W done) (hne : e.names ≠ []) (hw : hs.WellFormed)
    (hx : fs.get? (S ++ e.names) = some x) (hlike : y.likeness = x.likeness)
    (hget : ∀ q, hs.get? q = if q = W ++ e.names then some y else gs.get? q) :
    Copied fs hs S W (done ++ [e]) := by
  refine ⟨hw, fun q hq => ?_, fun ns hns => ?_⟩
  · have hqne : q ≠ W ++ e.names := by
      rintro rfl
      exact hq ⟨List.prefix_append W _, by simp [hne]⟩
    rw [hget, if_neg hqne, h.outside q hq]
  · rw [hget, List.map_append, List.map_singleton]
    by_cases heq : ns = e.names
    · rw [heq, if_pos rfl, if_pos (by simp), hx, Option.map_some, Option.map_some, hlike]
    · rw [if_neg (by simpa using heq), h.inside ns hns]
      simp [heq]

/-- Copying the next entry keeps the invariant, or it fails and changes nothing. -/
theorem step (h : Copied fs gs S W done) (hr : Route fs cwd source target S W)
    (hL : fs.listingAt skip S = done ++ e :: rest) :
    (∃ hs, copyEntry cwd (source.join e.path) (target.join e.path) e.kind gs = (.ok (), hs) ∧
      Copied fs hs S W (done ++ [e])) ∨
    ∃ err, copyEntry cwd (source.join e.path) (target.join e.path) e.kind gs = (.error err, gs) := by
  have he : e ∈ fs.listingAt skip S := by simp [hL]
  obtain ⟨hne, -, x, hx, hkind⟩ := (mem_listingAt hr.wellFormed).mp he
  obtain ⟨ms, n, hsplit, hn, hdir, hfree⟩ := h.next_free hr hL
  have hplace : W ++ e.names ≠ [] := by simp [hne]
  have hput : ∀ z : Entry, z.fileId? = none → (gs.put (W ++ e.names) z).WellFormed := by
    intro z hz
    rw [hsplit, ← List.append_assoc] at hfree ⊢
    exact h.wellFormed.put hdir hn hfree (by simp [hz])
  have hend : withoutEndSlashes (target.join e.path) = target.join e.path := by
    obtain ⟨m, hm⟩ := h.leads_target hr
    have hplain : PlainPlace e.names := (plainPlace_append.mp (hr.wellFormed.plainPlace hx)).2
    exact withoutEndSlashes_join (lookup_eq_ok_iff.mp hm).1 hne hplain
  cases hk : e.kind with
  | dir =>
    by_cases hlong : maxPath < (target.join e.path).text.utf8ByteSize
    · refine Or.inr ⟨.entryNotCopied (source.join e.path) (target.join e.path)
        Errno.nameTooLong, ?_⟩
      rw [copyEntry, Effect.attempt, createDirs_of_long hend hlong]
    · have htarget := h.lookup_target hr hL (Nat.le_of_not_lt hlong) false
      rw [hk] at hkind
      refine Or.inl ⟨gs.put (W ++ e.names) (.dir dirMode), ?_, h.add hne (hput _ rfl) hx
        (y := .dir dirMode) ?_ fun q => get?_put hplace⟩
      · rw [copyEntry, Effect.attempt, createDirs_of_vacant hend htarget]
      · cases x <;> simp_all [Entry.kind, Entry.likeness]
  | file =>
    cases hcopy : gs.copyRegular cwd (source.join e.path) (target.join e.path) with
    | error err => exact Or.inr ⟨_, by rw [copyEntry, Effect.change, hcopy]⟩
    | ok hs =>
      obtain ⟨p, id, m, bytes, hstat, hfile⟩ := copyRegular_eq_ok hcopy
      have htarget := h.lookup_target hr hL (length_of_copyFile hstat hend hfile) true
      have hlink : x.isLink = false := by
        rw [hk] at hkind
        cases x <;> simp_all [Entry.kind, Entry.isLink]
      have hxfile := h.stat_source hr hne hx (Or.inr hlink) hstat
      obtain ⟨hs', hfile', hw, hget⟩ := copyFile_of_vacant h.wellFormed hstat hend htarget
      obtain rfl : hs' = hs := Except.ok.inj (hfile'.symm.trans hfile)
      refine Or.inl ⟨hs', by rw [copyEntry, Effect.change, hcopy], h.add hne hw hx ?_ hget⟩
      rw [← hxfile]
      rfl
  | link =>
    cases hcopy : gs.copyLink cwd (source.join e.path) (target.join e.path) with
    | error err => exact Or.inr ⟨_, by rw [copyEntry, Effect.change, hcopy]⟩
    | ok hs =>
      obtain ⟨p, t, q, hstat, hq, rfl⟩ := copyLink_eq_ok hcopy
      have htarget := h.lookup_target hr hL (lookup_eq_ok_iff.mp hq).2.1 false
      obtain rfl : q = W ++ e.names := Found.vacant.inj (Except.ok.inj (hq.symm.trans htarget))
      have hxlink := h.stat_source hr hne hx (Or.inl rfl) hstat
      refine Or.inl ⟨gs.put (W ++ e.names) (.link t), by rw [copyEntry, Effect.change, hcopy],
        h.add hne (hput _ rfl) hx ?_ fun q => get?_put hplace⟩
      rw [← hxlink]

/-- However far copying the rest comes, what is done has been copied, and if it does not fail all
is done. -/
theorem run (hr : Route fs cwd source target S W) (h : Copied fs gs S W done)
    (hL : fs.listingAt skip S = done ++ rest) :
    ∃ done', Copied fs (fillFrom cwd source target rest gs).2 S W done' ∧
      ((fillFrom cwd source target rest gs).1 = .ok () → done' = fs.listingAt skip S) := by
  induction rest generalizing gs done with
  | nil =>
    rw [List.append_nil] at hL
    exact ⟨done, h, fun _ => hL.symm⟩
  | cons e rest ih =>
    rw [fillFrom, Effect.bind_apply]
    rcases h.step hr hL with ⟨hs, hstep, hcopied⟩ | ⟨err, hfails⟩
    · rw [hstep]
      exact ih hcopied (by rw [hL, List.append_assoc, List.singleton_append])
    · rw [hfails]
      exact ⟨done, h, fun hok => by cases hok⟩

end Copied

/-! ## Copying what is below a directory -/

/-- The file system with an empty directory at a place. -/
abbrev withDir (fs : FileSystem) (W : Place) : FileSystem := fs.put W (.dir dirMode)

theorem WellFormed.withDir (hw : fs.WellFormed)
    (h : fs.lookup cwd target false = .ok (.vacant W)) : (fs.withDir W).WellFormed := by
  obtain ⟨d, n, rfl, hd, hn, hv⟩ := vacant_of_lookup h
  exact hw.put hd hn hv rfl

theorem dirsAdded_withDir (h : fs.lookup cwd target false = .ok (.vacant W)) :
    DirsAdded fs (fs.withDir W) := by
  obtain ⟨d, n, hW, -, -, hv⟩ := vacant_of_lookup h
  exact DirsAdded.put (by simp [hW]) hv

theorem get?_withDir_append (hw : fs.WellFormed) (h : fs.lookup cwd target false = .ok (.vacant W))
    {ns : List String} (hne : ns ≠ []) : (fs.withDir W).get? (W ++ ns) = none := by
  obtain ⟨d, n, hW, -, -, hv⟩ := vacant_of_lookup h
  have hdir : fs.isDirAt W = false := by rw [isDirAt, hv]; rfl
  rw [get?_put (by simp [hW]), if_neg (by simp [hne])]
  exact hw.get?_append_eq_none hne hdir

theorem copyBelow_of_vacant (hend : withoutEndSlashes target = target)
    (h : fs.lookup cwd target false = .ok (.vacant W)) :
    copyBelow cwd skip source target fs =
      match (fs.withDir W).listing cwd skip source with
      | .error e => (.error (.unlisted e), fs.withDir W)
      | .ok entries => fillFrom cwd source target entries (fs.withDir W) := by
  have hmade : Effect.attempt (fun e : Errno => CopyError.noDirectory target e)
      (·.createDirs cwd target) fs = (.ok (), fs.withDir W) := by
    rw [Effect.attempt, createDirs_of_vacant hend h]
  unfold copyBelow
  rw [Effect.bind_of_ok _ hmade, Effect.bind_apply, Effect.examine]
  cases (fs.withDir W).listing cwd skip source <;> rfl

theorem copyBelow_of_long (hend : withoutEndSlashes target = target)
    (h : maxPath < target.text.utf8ByteSize) :
    copyBelow cwd skip source target fs =
      (.error (.noDirectory target Errno.nameTooLong), fs) := by
  unfold copyBelow
  refine Effect.bind_of_error _ ?_
  rw [Effect.attempt, createDirs_of_long hend h]

/-- The way from a directory to a free place, when the place has been made a directory. -/
theorem route_withDir {m : Nat} (hw : fs.WellFormed)
    (h : fs.lookup cwd target false = .ok (.vacant W))
    (hS : (fs.withDir W).lookup cwd source true = .ok (.entry S (.dir m))) :
    Route (fs.withDir W) cwd source target S W :=
  ⟨hw.withDir h, ⟨m, hS⟩, ⟨dirMode, lookup_put h rfl⟩, fun _ hne => get?_withDir_append hw h hne⟩

/-- Copying to a free place changes nothing but what is there and below. -/
theorem copyBelow_frame (hw : fs.WellFormed) (hend : withoutEndSlashes target = target)
    (hfree : fs.Free cwd target W) (skip : Exclusion) (source : Path) :
    (copyBelow cwd skip source target fs).2.WellFormed ∧
      ∀ q, (copyBelow cwd skip source target fs).2.get? q ≠ fs.get? q → W <+: q := by
  rcases hfree with hv | hlong
  · have hbase : ∀ q, (fs.withDir W).get? q ≠ fs.get? q → W <+: q := by
      obtain ⟨d, n, hW, -⟩ := vacant_of_lookup hv
      intro q hq
      rw [get?_put (by simp [hW])] at hq
      by_cases hqW : q = W
      · exact hqW ▸ List.prefix_refl q
      · exact absurd (if_neg hqW) hq
    rw [copyBelow_of_vacant hend hv, listing_eq (hw.withDir hv)]
    cases hstat : (fs.withDir W).stat cwd source true with
    | error e => exact ⟨hw.withDir hv, hbase⟩
    | ok r =>
      obtain ⟨S, x⟩ := r
      cases x with
      | dir m =>
        have hr := route_withDir hw hv (stat_eq_ok_iff.mp hstat)
        obtain ⟨done, hcopied, -⟩ :=
          hr.copied.run hr (List.nil_append ((fs.withDir W).listingAt skip S)).symm
        refine ⟨hcopied.wellFormed, fun q hq => ?_⟩
        by_contra hnot
        rw [hcopied.outside q fun hin => hnot hin.1] at hq
        exact hnot (hbase q hq)
      | _ => exact ⟨hw.withDir hv, hbase⟩
  · rw [copyBelow_of_long hend hlong]
    exact ⟨hw, fun q hq => absurd rfl hq⟩

/-- When copying succeeds, all that is listed has been copied. -/
theorem copied_of_copyBelow {m : Nat} (hw : fs.WellFormed) (hend : withoutEndSlashes target = target)
    (hfree : fs.Free cwd target W)
    (hS : (fs.withDir W).lookup cwd source true = .ok (.entry S (.dir m)))
    (h : copyBelow cwd skip source target fs = (.ok (), gs)) :
    Copied (fs.withDir W) gs S W ((fs.withDir W).listingAt skip S) := by
  rcases hfree with hv | hlong
  · have hr := route_withDir hw hv hS
    rw [copyBelow_of_vacant hend hv, listing_eq (hw.withDir hv), stat_eq_ok_iff.mpr hS] at h
    obtain ⟨done, hcopied, hdone⟩ :=
      hr.copied.run hr (List.nil_append ((fs.withDir W).listingAt skip S)).symm
    dsimp only at h
    rw [h] at hcopied hdone
    rw [← hdone rfl]
    exact hcopied
  · rw [copyBelow_of_long hend hlong] at h
    cases h

end FileSystem

end CodeIndex

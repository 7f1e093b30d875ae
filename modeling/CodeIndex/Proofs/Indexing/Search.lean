import CodeIndex.Proofs.Indexing

/-!
# Which index is found

Files of one extension are in a total order: fewer steps come first, and then the paths do. So there
is one least file where there are any, and it does not depend on the order in which directories list
their entries.

* `FileSystem.searchIndex_eq_none_iff`, `FileSystem.searchIndex_eq_some_iff` : a search finds the
  least file;
* `FileSystem.locateIndex_of_same` : the order of directories does not show;
* `Host.index_determined` : the index of a run, by what the analyzer has left.
-/

namespace CodeIndex

open FileSystem

variable {host : Host} {fs gs : FileSystem} {cwd W : Place} {path root : Path} {e : Entry} {m : Nat}
  {ns ms : List String} {copy : WorkingCopy} {call : IndexerCall} {extension : String}

namespace FileSystem

theorem searchIndex_eq_none_iff (hw : fs.WellFormed)
    (hW : fs.stat cwd root true = .ok (W, .dir m)) (extension : String) :
    fs.searchIndex cwd root extension = .ok none ↔ ∀ ns e, ¬ fs.Holds W extension ns e := by
  rcases searchIndex_cases hw hW extension with ⟨hnone, hsearch⟩ | ⟨ns, hleast, hsearch⟩
  · exact iff_of_true hsearch hnone
  · obtain ⟨e, he⟩ := hleast.holds
    exact iff_of_false (by rw [hsearch]; nofun) fun hnone => hnone ns e he

theorem searchIndex_eq_some_iff (hw : fs.WellFormed)
    (hW : fs.stat cwd root true = .ok (W, .dir m)) (extension : String) (path : Path) :
    fs.searchIndex cwd root extension = .ok (some path) ↔
      ∃ ns, fs.Shallowest W extension ns ∧ path = root.join (relativePath ns) := by
  rcases searchIndex_cases hw hW extension with ⟨hnone, hsearch⟩ | ⟨ns, hleast, hsearch⟩
  · refine iff_of_false (by rw [hsearch]; nofun) ?_
    rintro ⟨ns, hleast, -⟩
    obtain ⟨e, he⟩ := hleast.holds
    exact hnone ns e he
  · rw [hsearch, Except.ok.injEq, Option.some.injEq]
    constructor
    · rintro rfl
      exact ⟨ns, hleast, rfl⟩
    · rintro ⟨ms, hleast', rfl⟩
      rw [hleast.unique hw hleast']

/-! ## The order in which directories list -/

theorem listing_of_same (hw : fs.WellFormed) (hg : gs.WellFormed) (h : fs.Same gs) (cwd : Place)
    (skip : Exclusion) (root : Path) : gs.listing cwd skip root = fs.listing cwd skip root := by
  have hsame : ∀ p, gs.listingAt skip p = fs.listingAt skip p := by
    intro p
    refine (pairwise_listingAt hg skip p).eq_of_mem_iff (pairwise_listingAt hw skip p) fun a => ?_
    rw [mem_listingAt hg, mem_listingAt hw, h (p ++ a.names)]
  rw [listing_eq hw, listing_eq hg, stat_of_same h]
  cases fs.stat cwd root true with
  | error e => rfl
  | ok r =>
    obtain ⟨p, x⟩ := r
    cases x with
    | dir mode => exact congrArg _ (hsame p)
    | _ => rfl

theorem listingByExtension_of_same (hw : fs.WellFormed) (hg : gs.WellFormed) (h : fs.Same gs)
    (cwd : Place) (skip : Exclusion) (root : Path) (extension : String) :
    gs.listingByExtension cwd skip root extension =
      fs.listingByExtension cwd skip root extension := by
  rw [listingByExtension, listingByExtension, listing_of_same hw hg h]

/-- What is found does not depend on the order in which directories list their entries. -/
theorem locateIndex_of_same (hw : fs.WellFormed) (hg : gs.WellFormed) (h : fs.Same gs)
    (cwd : Place) (root : Path) (call : IndexerCall) :
    gs.locateIndex cwd root call = fs.locateIndex cwd root call := by
  have hfile : ∀ path, gs.isFile cwd path = fs.isFile cwd path := by
    intro path
    rw [isFile, isFile, entry?, entry?, stat_of_same h]
  rw [locateIndex, locateIndex, searchIndex, searchIndex, listingByExtension_of_same hw hg h]
  rw [hfile]

end FileSystem

/-! ## The index of a run -/

/-- The index of a run of the analyzer that has succeeded. -/
def FoundIndex.of (index : Path) (out : Captured) (sighting : Sighting) : FoundIndex :=
  ⟨index, out.status, out.stdout, out.stderr, sighting⟩

namespace Host

/-- In a working copy that the analyzer has left, the files of an extension are in one order, of
which a search gives the first. The index of the run is the one of the conventional name if that is
a file, and else what the search finds. All this is the same in any order in which directories list
their entries. -/
theorem index_determined (hw : gs.WellFormed)
    (hW : gs.stat host.cwd copy.path true = .ok (W, .dir m)) :
    (∀ extension,
      (∃ L : List (List String), gs.listingByExtension host.cwd (fun _ => false) copy.path
          extension = .ok (L.map fun ns => copy.path.join (relativePath ns)) ∧
        (∀ ns, ns ∈ L ↔ ∃ e, gs.Holds W extension ns e) ∧ L.Nodup ∧
        L.Pairwise fun ns ms => (relativePath ns).Shallower (relativePath ms)) ∧
      (gs.searchIndex host.cwd copy.path extension = .ok none ↔
        ∀ ns e, ¬ gs.Holds W extension ns e) ∧
      (∀ ns ms, gs.Shallowest W extension ns → gs.Shallowest W extension ms → ns = ms) ∧
      ∀ path, gs.searchIndex host.cwd copy.path extension = .ok (some path) ↔
        ∃ ns, gs.Shallowest W extension ns ∧ path = copy.path.join (relativePath ns)) ∧
    (∀ fs call out, host.run call.tool.name (call.command copy) none call.timeout fs =
        (.ok out, gs) → out.status.success = true →
      host.makeIndex copy call fs =
        (if gs.isFile host.cwd (copy.path.child call.expectedName) then
          .ok (.of (copy.path.child call.expectedName) out .expected)
        else
          match gs.searchIndex host.cwd copy.path call.extension with
          | .ok (some path) => .ok (.of path out .searched)
          | .ok none => .error (.noIndexLeft copy.path call.extension)
          | .error x => .error (.unlisted x), gs)) ∧
    ∀ gs', gs'.WellFormed → gs.Same gs' →
      (∀ extension, gs'.listingByExtension host.cwd (fun _ => false) copy.path extension =
        gs.listingByExtension host.cwd (fun _ => false) copy.path extension) ∧
      ∀ call, gs'.locateIndex host.cwd copy.path call = gs.locateIndex host.cwd copy.path call := by
  refine ⟨fun extension => ⟨listingByExtension_ordered hw hW extension,
    searchIndex_eq_none_iff hw hW extension, fun _ _ h h' => h.unique hw h',
    searchIndex_eq_some_iff hw hW extension⟩, ?_, ?_⟩
  · intro fs call out hrun hsuccess
    rw [makeIndex_of_run hrun hsuccess, locateIndex]
    cases gs.isFile host.cwd (copy.path.child call.expectedName) with
    | true => rfl
    | false => rcases gs.searchIndex host.cwd copy.path call.extension with x | _ | path <;> rfl
  · intro gs' hg h
    exact ⟨fun extension => listingByExtension_of_same hw hg h _ _ _ extension,
      fun call => locateIndex_of_same hw hg h _ _ call⟩

/-- A working copy with two files that may be the index, and a link to one of them. -/
def copyWithTwo : FileSystem :=
  copyWith [(["work", "ws", "sub", "a.scip"], .file 1 0o644 []),
    (["work", "ws", "z.scip"], .file 2 0o644 []), (["work", "ws", "k.scip"], .link ⟨"z.scip"⟩),
    (["work", "ws", "sub"], .dir 0o755)] 3

/-- The one at the root is found, though the other comes first. -/
theorem shallowest_index_found :
    (∃ ns, copyWithTwo.Shallowest ["work", "ws"] "scip" ns ∧
      ⟨"/work/ws/z.scip"⟩ = plainCopy.path.join (relativePath ns)) ∧
    ∃ out, (idleHost.withBehaviour quietBehaviour).makeIndex plainCopy indexerCall copyWithTwo =
      (.ok (.of ⟨"/work/ws/z.scip"⟩ out .searched), copyWithTwo) := by
  have hW : copyWithTwo.stat (idleHost.withBehaviour quietBehaviour).cwd plainCopy.path true =
      .ok (["work", "ws"], .dir 0o755) := by decide +kernel
  have hsearch : copyWithTwo.searchIndex (idleHost.withBehaviour quietBehaviour).cwd plainCopy.path
      "scip" = .ok (some ⟨"/work/ws/z.scip"⟩) := by decide +kernel
  have hfile : copyWithTwo.isFile (idleHost.withBehaviour quietBehaviour).cwd
      (plainCopy.path.child indexerCall.expectedName) = false := by decide +kernel
  have hstarts : idleHost.Starts (indexerCall.command plainCopy) copyWithTwo := by decide +kernel
  obtain ⟨out, hsuccess, hrun⟩ := run_idle indexerCall.tool.name indexerCall.timeout hstarts
  obtain ⟨hlists, hmake, -⟩ := index_determined (by decide +kernel) hW
  refine ⟨((hlists "scip").2.2.2 _).mp hsearch, out, ?_⟩
  rw [hmake _ _ _ hrun hsuccess, hfile, if_neg Bool.false_ne_true]
  have hfound : copyWithTwo.searchIndex (idleHost.withBehaviour quietBehaviour).cwd plainCopy.path
      indexerCall.extension = .ok (some ⟨"/work/ws/z.scip"⟩) := hsearch
  rw [hfound]

end Host

end CodeIndex

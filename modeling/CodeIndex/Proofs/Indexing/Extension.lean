import CodeIndex.Proofs.FileSystem.Writing
import CodeIndex.Proofs.Indexing.Search

/-!
# Names that end in an extension

The conventional name of an index is put together from `index`, a dot and the extension. A search
takes names apart at their last dot. So the two agree on which names have an extension exactly if
the extension itself has no dot.

* `Path.splitName?_append`, `Path.not_mem_of_splitName?` : what follows the last dot of a name;
* `FileSystem.FindsNamed` : a search finds every file whose name ends in the extension;
* `Host.NoneMissed` : where no index is said to have been left, there is no such file;
* `Host.none_missed_iff` : for which extensions this is so.
-/

namespace CodeIndex

open FileSystem

variable {host : Host} {fs gs : FileSystem} {cwd W : Place} {path root : Path} {e : Entry} {m : Nat}
  {ns : List String} {n stem extension : String} {copy : WorkingCopy} {call : IndexerCall}

/-! ## Names and their last dot -/

/-- The name with the given stem and extension. -/
def nameWith (stem extension : String) : String := stem ++ "." ++ extension

/-- By convention an index is called `index`. -/
theorem expectedName_eq (call : IndexerCall) :
    call.expectedName = nameWith "index" call.extension :=
  congrArg (· ++ call.extension) (by decide : "index." = "index" ++ ".")

theorem toList_nameWith (stem extension : String) :
    (nameWith stem extension).toList = stem.toList ++ '.' :: extension.toList := by
  simp [nameWith]

theorem utf8ByteSize_nameWith (stem extension : String) :
    (nameWith stem extension).utf8ByteSize = stem.utf8ByteSize + 1 + extension.utf8ByteSize := by
  have hdot : ".".utf8ByteSize = 1 := rfl
  rw [nameWith, String.utf8ByteSize_append, String.utf8ByteSize_append, hdot]

/-- Such a name is not one of the short ones that stand for a directory. -/
theorem two_lt_length_nameWith (hstem : stem ≠ "") (hne : extension ≠ "") :
    2 < (nameWith stem extension).toList.length := by
  have hpos : ∀ {s : String}, s ≠ "" → 0 < s.toList.length :=
    fun h => List.length_pos_of_ne_nil (by simpa using h)
  have hleft := hpos hstem
  have hright := hpos hne
  rw [toList_nameWith, List.length_append, List.length_cons]
  omega

theorem plainName_nameWith (hstem : stem ≠ "") (hne : extension ≠ "")
    (hstem' : '/' ∉ stem.toList) (hext : '/' ∉ extension.toList) :
    PlainName (nameWith stem extension) := by
  have hlen := two_lt_length_nameWith hstem hne
  refine ⟨?_, ?_, ?_, ?_⟩
  · intro h
    rw [h] at hlen
    exact absurd hlen (by decide)
  · intro h
    rw [h] at hlen
    exact absurd hlen (by decide)
  · intro h
    rw [h] at hlen
    exact absurd hlen (by decide)
  · rw [toList_nameWith, List.mem_append, List.mem_cons]
    rintro (h | h | h)
    · exact hstem' h
    · exact absurd h (by decide)
    · exact hext h

theorem isName_nameWith (hstem : stem ≠ "") (hne : extension ≠ "") (hstem' : '/' ∉ stem.toList)
    (hext : '/' ∉ extension.toList)
    (hshort : stem.utf8ByteSize + 1 + extension.utf8ByteSize ≤ maxName) :
    IsName (nameWith stem extension) :=
  ⟨plainName_nameWith hstem hne hstem' hext, by rwa [utf8ByteSize_nameWith]⟩

namespace Path

/-- Nothing that is split off a name has a dot. -/
theorem not_mem_of_splitName? {parts : String × String} (h : splitName? n = some parts) :
    '.' ∉ parts.2.toList := by
  unfold splitName? at h
  dsimp only at h
  split at h
  · cases h
  · split at h
    · cases h
    · obtain rfl := Option.some.inj h
      intro hmem
      rw [String.toList_ofList, List.mem_reverse] at hmem
      have hplain := List.all_eq_true.mp List.all_takeWhile _ hmem
      exact absurd hplain (by decide)

/-- A name is split where its extension begins, if that has no dot. -/
theorem splitName?_append (hstem : stem ≠ "") (hne : extension ≠ "")
    (hdot : '.' ∉ extension.toList) :
    splitName? (nameWith stem extension) = some (stem, extension) := by
  have hrev : (nameWith stem extension).toList.reverse =
      extension.toList.reverse ++ '.' :: stem.toList.reverse := by
    simp [toList_nameWith]
  have hplain : ∀ c ∈ extension.toList.reverse, (c != '.') = true := by
    intro c hc
    rw [bne_iff_ne]
    rintro rfl
    exact hdot (List.mem_reverse.mp hc)
  have hdrop : (nameWith stem extension).toList.reverse.dropWhile (· != '.') =
      '.' :: stem.toList.reverse := by
    rw [hrev, List.dropWhile_append_of_pos hplain]
    simp
  have htake : (nameWith stem extension).toList.reverse.takeWhile (· != '.') =
      extension.toList.reverse := by
    rw [hrev, List.takeWhile_append_of_pos hplain]
    simp
  have hdots : nameWith stem extension ≠ ".." := by
    intro h
    have hlen := two_lt_length_nameWith hstem hne
    rw [h] at hlen
    exact absurd hlen (by decide)
  unfold splitName?
  dsimp only
  rw [hdrop, htake]
  dsimp only
  rw [if_neg (by simp [hstem, hdots])]
  simp

/-- At the last dot, and not where an extension with a dot begins. -/
example : splitName? "index.scip.gz" = some ("index.scip", "gz") := by decide +kernel

theorem extension?_relative (hns : PlainPlace (ns ++ [n])) :
    (relativePath (ns ++ [n])).extension? = (splitName? n).map Prod.snd := by
  have hname : (relativePath (ns ++ [n])).fileName? = some n := by
    rw [fileName?, components_relative (by simp) hns]
    simp
  rw [extension?, hname, Option.bind_some]

end Path

/-! ## What a search finds -/

namespace FileSystem

/-- A search finds every regular file, in any directory, whose name is a stem with the extension. -/
def FindsNamed (extension : String) : Prop :=
  ∀ (fs : FileSystem) (cwd : Place) (root : Path) (W : Place) (m : Nat) (ns : List String)
    (stem : String) (id mode : Nat) (bytes : List UInt8), fs.WellFormed →
    fs.stat cwd root true = .ok (W, .dir m) → stem ≠ "" →
    fs.get? (W ++ (ns ++ [nameWith stem extension])) = some (.file id mode bytes) →
    ∃ L, fs.listingByExtension cwd (fun _ => false) root extension = .ok L ∧
      root.join (relativePath (ns ++ [nameWith stem extension])) ∈ L

/-- A file whose name ends in an extension without dots is one that a search looks for. -/
theorem holds_nameWith {id mode : Nat} {bytes : List UInt8} (hw : fs.WellFormed) (hstem : stem ≠ "")
    (hne : extension ≠ "") (hdot : '.' ∉ extension.toList)
    (hget : fs.get? (W ++ (ns ++ [nameWith stem extension])) = some (.file id mode bytes)) :
    fs.Holds W extension (ns ++ [nameWith stem extension]) (.file id mode bytes) where
  ne_nil := by simp
  get?_eq := hget
  kind := rfl
  extension := by
    have hplain : PlainPlace (ns ++ [nameWith stem extension]) :=
      fun n hn => hw.plainPlace hget n (List.mem_append_right W hn)
    rw [Path.extension?_relative hplain, Path.splitName?_append hstem hne hdot]
    rfl

theorem Holds.not_mem (hw : fs.WellFormed) (h : fs.Holds W extension ns e) :
    '.' ∉ extension.toList := by
  obtain ⟨ms, n, rfl⟩ := (List.eq_nil_or_concat ns).resolve_left h.ne_nil
  rw [List.concat_eq_append] at h
  have hext := h.extension
  rw [Path.extension?_relative (h.plainPlace hw)] at hext
  obtain ⟨parts, hparts, rfl⟩ := Option.map_eq_some_iff.mp hext
  exact Path.not_mem_of_splitName? hparts

/-- Names that are too long are not there. -/
theorem get?_nameWith_eq_none (hw : fs.WellFormed) (hstem : stem ≠ "")
    (hlong : maxName < extension.utf8ByteSize + 2) :
    fs.get? (W ++ (ns ++ [nameWith stem extension])) = none := by
  cases hget : fs.get? (W ++ (ns ++ [nameWith stem extension])) with
  | none => rfl
  | some e =>
    have hshort := (hw.isName hget (nameWith stem extension) (by simp)).short
    have hpos : 0 < stem.utf8ByteSize := Nat.pos_of_ne_zero (by simpa using hstem)
    rw [utf8ByteSize_nameWith] at hshort
    omega

/-- A name in a directory is no file if nothing has it. -/
theorem isFile_child_eq_false (hW : fs.stat cwd root true = .ok (W, .dir m)) (hn : PlainName n)
    (hnone : fs.get? (W ++ [n]) = none) : fs.isFile cwd (root.child n) = false := by
  by_contra hfile
  rw [Bool.not_eq_false, isFile_iff] at hfile
  obtain ⟨q, id, mode, bytes, hstat⟩ := hfile
  have hchild := stat_eq_ok_iff.mp hstat
  rw [child_eq_join] at hchild
  obtain ⟨k, -, hf⟩ := finds_of_lookup_join (stat_eq_ok_iff.mp hW) (List.cons_ne_nil n [])
    (by simpa using hn) hchild
  exact hf.get?_ne_none hn hnone

/-- For an extension without dots, or one that is too long for names, nothing is overlooked. -/
theorem not_get?_of_searchIndex {x : Entry} (hw : fs.WellFormed) (hne : extension ≠ "")
    (hext : '.' ∉ extension.toList ∨ maxName < extension.utf8ByteSize + 2)
    (hW : fs.stat cwd root true = .ok (W, x))
    (hnone : fs.searchIndex cwd root extension = .ok none) (hstem : stem ≠ "") (id mode : Nat)
    (bytes : List UInt8) :
    fs.get? (W ++ (ns ++ [nameWith stem extension])) ≠ some (.file id mode bytes) := by
  intro hget
  rcases hext with hdot | hlong
  · obtain ⟨m, hm⟩ := isDirAt_iff.mp (hw.isDirAt_of_append (by simp) hget)
    obtain rfl := Option.some.inj ((get?_of_lookup (stat_eq_ok_iff.mp hW)).symm.trans hm)
    exact (searchIndex_eq_none_iff hw hW extension).mp hnone _ _
      (holds_nameWith hw hstem hne hdot hget)
  · rw [get?_nameWith_eq_none hw hstem hlong] at hget
    cases hget

theorem findsNamed_of (hne : extension ≠ "")
    (hext : '.' ∉ extension.toList ∨ maxName < extension.utf8ByteSize + 2) :
    FindsNamed extension := by
  intro fs cwd root W m ns stem id mode bytes hw hW hstem hget
  rcases hext with hdot | hlong
  · obtain ⟨L, hL, hmem, -⟩ := listingByExtension_eq_ok hw hW extension
    refine ⟨_, hL, List.mem_map.mpr ⟨_, (hmem _).mpr ⟨.file id mode bytes, ?_⟩, rfl⟩⟩
    exact holds_nameWith hw hstem hne hdot hget
  · rw [get?_nameWith_eq_none hw hstem hlong] at hget
    cases hget

end FileSystem

namespace Host

/-- Where an analyzer is said to have left no index, no regular file is left below the working copy
whose name is a stem with the extension. -/
def NoneMissed (extension : String) : Prop :=
  ∀ (host : Host) (copy : WorkingCopy) (call : IndexerCall) (fs gs : FileSystem) (W : Place)
    (x : Entry), call.extension = extension → gs.WellFormed →
    host.makeIndex copy call fs = (.error (.noIndexLeft copy.path extension), gs) →
    gs.stat host.cwd copy.path true = .ok (W, x) →
    ∀ (ns : List String) (stem : String), stem ≠ "" → ∀ id mode bytes,
      gs.get? (W ++ (ns ++ [nameWith stem extension])) ≠ some (.file id mode bytes)

/-- No index was found where none is said to have been left. -/
theorem searchIndex_of_noIndexLeft
    (h : host.makeIndex copy call fs = (.error (.noIndexLeft path extension), gs)) :
    gs.searchIndex host.cwd copy.path call.extension = .ok none := by
  rw [makeIndex_apply] at h
  rcases hrun : host.run call.tool.name (call.command copy) none call.timeout fs with
    ⟨x | out, hs⟩ <;> rw [hrun] at h
  · cases h
  · dsimp only at h
    split at h
    · split at h
      · next c hlocate =>
        obtain ⟨hc, rfl⟩ := Prod.mk.inj h
        obtain rfl := Except.error.inj hc
        rw [locateIndex] at hlocate
        split at hlocate
        · cases hlocate
        · split at hlocate
          · cases hlocate
          · cases hlocate
          · assumption
      · cases h
    · cases h

theorem noneMissed_of (hne : extension ≠ "")
    (hext : '.' ∉ extension.toList ∨ maxName < extension.utf8ByteSize + 2) :
    NoneMissed extension := by
  rintro host copy call fs gs W x rfl hw hmake hW ns stem hstem id mode bytes
  exact not_get?_of_searchIndex hw hne hext hW (searchIndex_of_noIndexLeft hmake) hstem id mode bytes

/-- The analyzer leaves a given file system, and succeeds. -/
def leaving (gs : FileSystem) : Behaviour := fun _ _ _ => .ended gs [] [] (.exited 0) 0

/-- A working copy with a file in it. -/
def copyHolding (name : String) : FileSystem :=
  (copyWith [] 1).putNewFile ["work", "ws", name] fileMode

/-- Without the file there is nothing in it. -/
theorem get?_in_copyWith (name : String) : (copyWith [] 1).get? ["work", "ws", name] = none := by
  cases hget : (copyWith [] 1).get? ["work", "ws", name] with
  | none => rfl
  | some e =>
    have hdeep : ¬ 3 ≤ (copyWith [] 1).depth := by decide
    exact absurd (length_le_depth hget) hdeep

theorem get?_copyHolding (name : String) (q : Place) : (copyHolding name).get? q =
    if q = ["work", "ws", name] then some (.file 1 fileMode []) else (copyWith [] 1).get? q :=
  get?_putNewFile (List.cons_ne_nil _ _)

theorem wellFormed_copyHolding {name : String} (hname : IsName name) :
    (copyHolding name).WellFormed := by
  have hw : (copyWith [] 1).WellFormed := by decide
  exact hw.putNewFile (d := ["work", "ws"]) (by decide) hname (get?_in_copyWith name) fileMode

/-- Surroundings in which the analyzer leaves that file. -/
def holdingHost (name : String) : Host := idleHost.withBehaviour (leaving (copyHolding name))

theorem stat_copyHolding (name : String) :
    (copyHolding name).stat (holdingHost name).cwd plainCopy.path true =
      .ok (["work", "ws"], .dir 0o755) := by
  have hmono : ∀ q x, (copyWith [] 1).get? q = some x → (copyHolding name).get? q = some x := by
    intro q x hx
    rw [get?_copyHolding, if_neg, hx]
    rintro rfl
    rw [get?_in_copyWith] at hx
    cases hx
  have hW : (copyWith [] 1).stat idleHost.cwd plainCopy.path true =
      .ok (["work", "ws"], .dir 0o755) := by decide +kernel
  exact stat_eq_ok_iff.mpr (lookup_mono hmono (stat_eq_ok_iff.mp hW))

/-- What an analyzer is called with to make an index of an extension. -/
def callFor (extension : String) : IndexerCall := { indexerCall with extension := extension }

/-- The file has not the conventional name. -/
theorem isFile_expected_copyHolding (hne : extension ≠ "") (hslash : '/' ∉ extension.toList) :
    (copyHolding (nameWith "x" extension)).isFile (holdingHost (nameWith "x" extension)).cwd
      (plainCopy.path.child (callFor extension).expectedName) = false := by
  have hplain : PlainName (nameWith "index" extension) :=
    plainName_nameWith (by decide) hne (by decide) hslash
  have hother : nameWith "index" extension ≠ nameWith "x" extension := by
    intro heq
    have hlist := congrArg String.toList heq
    rw [toList_nameWith, toList_nameWith] at hlist
    exact absurd (List.cons.inj hlist).1 (by decide)
  rw [expectedName_eq]
  refine isFile_child_eq_false (stat_copyHolding _) hplain ?_
  rw [List.cons_append, List.singleton_append, get?_copyHolding, if_neg, get?_in_copyWith]
  simpa [callFor] using hother

/-- An analyzer that leaves a file whose extension has a dot is said to have left no index. -/
theorem makeIndex_of_dotted (hne : extension ≠ "") (hslash : '/' ∉ extension.toList)
    (hdot : '.' ∈ extension.toList) (hname : IsName (nameWith "x" extension)) :
    (holdingHost (nameWith "x" extension)).makeIndex plainCopy (callFor extension)
        (copyWith [] 1) =
      (.error (.noIndexLeft plainCopy.path extension), copyHolding (nameWith "x" extension)) := by
  have hw := wellFormed_copyHolding hname
  have hstarts : idleHost.Starts ((callFor extension).command plainCopy) (copyWith [] 1) := by
    change idleHost.Starts (indexerCall.command plainCopy) (copyWith [] 1)
    decide +kernel
  obtain ⟨out, hsuccess, hrun⟩ := run_at_once (callFor extension).tool.name
    (callFor extension).timeout hstarts
    fun _ _ => (rfl : leaving (copyHolding (nameWith "x" extension)) _ _ _ = _)
  have hlocate : (copyHolding (nameWith "x" extension)).locateIndex
      (holdingHost (nameWith "x" extension)).cwd plainCopy.path (callFor extension) =
        .error (.noIndexLeft plainCopy.path extension) := by
    rcases locateIndex_cases hw (stat_copyHolding _) (callFor extension) with
      ⟨hfile, -⟩ | ⟨-, ⟨ns, e, he, -⟩ | ⟨-, hnone⟩⟩
    · rw [isFile_expected_copyHolding hne hslash] at hfile
      cases hfile
    · exact absurd hdot (he.not_mem hw)
    · exact hnone
  rw [holdingHost, makeIndex_of_run hrun hsuccess]
  rw [holdingHost] at hlocate
  rw [hlocate]

/-- That no index was left means that there is none, and a search finds all that are called so,
exactly for the extensions that have no dot, or are too long for any name. -/
theorem none_missed_iff (hne : extension ≠ "") (hslash : '/' ∉ extension.toList) :
    NoneMissed extension ∧ FindsNamed extension ↔
      '.' ∉ extension.toList ∨ maxName < extension.utf8ByteSize + 2 := by
  constructor
  · rintro ⟨hmissed, -⟩
    by_contra hnot
    rw [not_or, not_not, Nat.not_lt] at hnot
    have hshort : "x".utf8ByteSize + 1 + extension.utf8ByteSize ≤ maxName := by
      have hx : "x".utf8ByteSize = 1 := rfl
      omega
    have hname := isName_nameWith (by decide : "x" ≠ "") hne (by decide) hslash hshort
    exact hmissed _ _ (callFor extension) _ _ _ _ rfl (wellFormed_copyHolding hname)
      (makeIndex_of_dotted hne hslash hnot.1 hname) (stat_copyHolding _) [] "x" (by decide) _ _ _
      ((get?_copyHolding _ _).trans (if_pos rfl))
  · exact fun hext => ⟨noneMissed_of hne hext, findsNamed_of hne hext⟩

/-- Of the usual extension nothing is missed. -/
theorem usual_extension_found : NoneMissed "scip" ∧ FindsNamed "scip" :=
  (none_missed_iff (by decide) (by decide)).mpr (Or.inl (by decide))

/-- Surroundings in which the analyzer leaves a packed index in a directory of its own. -/
def packingHost : Host :=
  idleHost.withBehaviour (leaving (copyWith
    [(["work", "ws", "sub", "index.scip.gz"], .file 1 0o644 [73]),
      (["work", "ws", "sub"], .dir 0o755)] 2))

/-- The packed index is there, and is said not to be. -/
theorem packed_index_missed :
    (packingHost.makeIndex plainCopy { indexerCall with extension := "scip.gz" }
      (copyWith [] 1)).1 = .error (.noIndexLeft plainCopy.path "scip.gz") ∧
    (packingHost.makeIndex plainCopy { indexerCall with extension := "scip.gz" }
      (copyWith [] 1)).2.get? ["work", "ws", "sub", nameWith "index" "scip.gz"] =
        some (.file 1 0o644 [73]) := by
  decide +kernel

end Host

end CodeIndex

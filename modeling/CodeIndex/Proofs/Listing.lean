import CodeIndex.Proofs.FileSystem.WellFormed
import CodeIndex.Proofs.FileSystem.Finds
import CodeIndex.Proofs.Walk.Outcome

/-!
# What listings have

The tree at a place has what is there in the file system, as far down as it goes, and all of it can
be read. So what a listing has can be told from the map of places, without a walk.

* `exists_leadsTo_treeAt` : what is in the tree at a place;
* `FileSystem.listingAt` : the entries below a place that are kept, in order;
* `listing_eq` : a listing has these;
* `listed_iff` : an entry is listed exactly if nothing on the way to it is excluded, nor itself;
* `mem_of_isPrefix` : what is above a listed entry comes before it, as a directory.
-/

namespace CodeIndex

namespace Folder

variable {l : List (String × FileTree)} {n : String} {t : FileTree}

theorem lists_ofList : (ofList l).Lists n t ↔ (n, t) ∈ l := by
  induction l with
  | nil => simp [ofList]
  | cons x l ih =>
    change (entry x.1 x.2 (ofList l)).Lists n t ↔ _
    rw [lists_entry, ih, List.mem_cons, Prod.ext_iff]

theorem cause?_ofList (l : List (String × FileTree)) : (ofList l).cause? = none := by
  induction l with
  | nil => rfl
  | cons x l ih => exact ih

theorem names_ofList (l : List (String × FileTree)) : (ofList l).names = l.map Prod.fst := by
  induction l with
  | nil => rfl
  | cons x l ih => exact congrArg (x.1 :: ·) ih

theorem wellFormed_ofList (hl : ∀ x ∈ l, PlainName x.1 ∧ x.2.WellFormed)
    (hnodup : (l.map Prod.fst).Nodup) : (ofList l).WellFormed := by
  induction l with
  | nil => trivial
  | cons x l ih =>
    rw [List.map_cons, List.nodup_cons] at hnodup
    obtain ⟨hname, htree⟩ := hl x List.mem_cons_self
    refine ⟨hname, ?_, htree, ih (fun y hy => hl y (List.mem_cons_of_mem x hy)) hnodup.2⟩
    change x.1 ∉ (ofList l).names
    rw [names_ofList]
    exact hnodup.1

end Folder

namespace FileSystem

variable {fs : FileSystem} {skip : Exclusion} {cwd p q : Place} {ns ms : List String} {n : String}
  {d : Nat} {a : Listed} {e x : Entry} {s : FileTree} {kind : ListedKind}

/-! ## What a directory lists -/

theorem nameIn?_eq_some : nameIn? p q = some n ↔ q = p ++ [n] := by
  rw [nameIn?]
  constructor
  · intro h
    split at h
    · next name _ =>
      split at h
      · next hq =>
        obtain rfl := Option.some_inj.mp h
        exact hq
      · cases h
    · cases h
  · rintro rfl
    simp

theorem mem_names (hw : fs.WellFormed) : n ∈ fs.names p ↔ ∃ e, fs.get? (p ++ [n]) = some e := by
  rw [names, List.mem_filterMap]
  constructor
  · rintro ⟨⟨q, e⟩, hmem, hq⟩
    rw [nameIn?_eq_some.mp hq] at hmem
    exact ⟨e, hw.get?_of_mem hmem⟩
  · rintro ⟨e, he⟩
    exact ⟨(p ++ [n], e), mem_entries (by simp) he, nameIn?_eq_some.mpr rfl⟩

theorem nodup_names (hw : fs.WellFormed) (p : Place) : (fs.names p).Nodup := by
  have hkeys : fs.entries.Pairwise fun x y => x.1 ≠ y.1 := List.pairwise_map.mp hw.nodup
  refine List.pairwise_filterMap.mpr (hkeys.imp ?_)
  rintro ⟨q, y⟩ ⟨q', y'⟩ hne n hn n' hn' rfl
  exact hne ((nameIn?_eq_some.mp hn).trans (nameIn?_eq_some.mp hn').symm)

theorem length_le_depth (h : fs.get? p = some e) : p.length ≤ fs.depth := by
  by_cases hp : p = []
  · simp [hp]
  · have hmem := mem_entries hp h
    rw [depth]
    generalize fs.entries = l at hmem
    induction l with
    | nil => cases hmem
    | cons x l ih =>
      rw [List.foldr_cons]
      rcases List.mem_cons.mp hmem with rfl | hmem
      · exact le_max_left _ _
      · exact (ih hmem).trans (le_max_right _ _)

/-! ## Trees -/

@[simp] theorem kind_treeAt (fs : FileSystem) (d : Nat) (p : Place) (e : Entry) :
    (fs.treeAt d p e).kind = e.kind := by
  cases d <;> cases e <;> rfl

/-- The entries of a directory, each with its own tree. -/
def branches (fs : FileSystem) (d : Nat) (p : Place) : List (String × FileTree) :=
  (fs.names p).filterMap fun name =>
    (fs.get? (p ++ [name])).map fun e => (name, fs.treeAt d (p ++ [name]) e)

theorem treeAt_dir (fs : FileSystem) (d : Nat) (p : Place) (mode : Nat) :
    fs.treeAt (d + 1) p (.dir mode) = .dir (Folder.ofList (fs.branches d p)) := rfl

theorem mem_branches (hw : fs.WellFormed) : (n, s) ∈ fs.branches d p ↔
    ∃ e, fs.get? (p ++ [n]) = some e ∧ s = fs.treeAt d (p ++ [n]) e := by
  rw [branches, List.mem_filterMap]
  constructor
  · rintro ⟨name, -, h⟩
    obtain ⟨e, he, heq⟩ := Option.map_eq_some_iff.mp h
    cases heq
    exact ⟨e, he, rfl⟩
  · rintro ⟨e, he, rfl⟩
    exact ⟨n, (mem_names hw).mpr ⟨e, he⟩, by rw [he]; rfl⟩

theorem nodup_branches (hw : fs.WellFormed) (d : Nat) (p : Place) :
    ((fs.branches d p).map Prod.fst).Nodup := by
  refine List.pairwise_map.mpr (List.pairwise_filterMap.mpr ((nodup_names hw p).imp ?_))
  intro name name' hne x hx x' hx' heq
  obtain ⟨e, -, rfl⟩ := Option.map_eq_some_iff.mp hx
  obtain ⟨e', -, rfl⟩ := Option.map_eq_some_iff.mp hx'
  exact hne heq

theorem wellFormed_treeAt (hw : fs.WellFormed) (d : Nat) (p : Place) (e : Entry) :
    (fs.treeAt d p e).WellFormed := by
  induction d generalizing p e with
  | zero => cases e <;> trivial
  | succ d ih =>
    cases e with
    | dir mode =>
      refine Folder.wellFormed_ofList (fun x hx => ?_) (nodup_branches hw d p)
      obtain ⟨y, hy, heq⟩ := (mem_branches hw).mp hx
      refine ⟨hw.plainPlace hy x.1 (by simp), ?_⟩
      rw [heq]
      exact ih (p ++ [x.1]) y
    | _ => trivial

/-- Everything in the tree of a place can be read. -/
theorem failure?_of_treeAt (hw : fs.WellFormed) (h : (fs.treeAt d p e).LeadsTo ns s)
    (place : Path) : s.failure? place = none := by
  induction ns generalizing d p e with
  | nil =>
    rw [FileTree.leadsTo_nil] at h
    subst h
    cases d <;> cases e <;> try rfl
    rw [treeAt_dir, FileTree.failure?, Folder.cause?_ofList]
    rfl
  | cons n ns ih =>
    obtain ⟨f, u, hf, hl, hu⟩ := FileTree.leadsTo_cons.mp h
    cases d <;> cases e <;> cases hf
    · cases hl
    · obtain ⟨y, -, rfl⟩ := (mem_branches hw).mp (Folder.lists_ofList.mp hl)
      exact ih hu

/-- The names lead down the tree of a place to what stands there in the file system. -/
theorem exists_leadsTo_treeAt (hw : fs.WellFormed) (he : fs.get? p = some e)
    (hdeep : ∀ ns x, fs.get? (p ++ ns) = some x → ns.length ≤ d) :
    (∃ s, (fs.treeAt d p e).LeadsTo ns s ∧ s.kind = kind) ↔
      ∃ x, fs.get? (p ++ ns) = some x ∧ x.kind = kind := by
  induction ns generalizing d p e with
  | nil => simp [he]
  | cons n ns ih =>
    have hassoc : p ++ n :: ns = (p ++ [n]) ++ ns := by simp
    simp only [FileTree.leadsTo_cons]
    cases e with
    | dir mode =>
      cases d with
      | zero =>
        constructor
        · rintro ⟨s, ⟨f, u, hf, hl, -⟩, -⟩
          cases hf
          cases hl
        · rintro ⟨x, hx, -⟩
          exact absurd (hdeep _ x hx) (by simp)
      | succ d =>
        have hdeeper : ∀ ms x, fs.get? ((p ++ [n]) ++ ms) = some x → ms.length ≤ d := by
          intro ms x hx
          have hlen := hdeep (n :: ms) x (by rwa [List.append_assoc] at hx)
          simpa using hlen
        rw [hassoc]
        constructor
        · rintro ⟨s, ⟨f, u, hf, hl, hu⟩, hkind⟩
          cases hf
          obtain ⟨y, hy, rfl⟩ := (mem_branches hw).mp (Folder.lists_ofList.mp hl)
          exact (ih hy hdeeper).mp ⟨s, hu, hkind⟩
        · rintro ⟨x, hx, hkind⟩
          obtain ⟨y, hy⟩ : ∃ y, fs.get? (p ++ [n]) = some y := by
            by_cases hnil : ns = []
            · exact ⟨x, by rwa [hnil, List.append_nil] at hx⟩
            · obtain ⟨m, hm⟩ := isDirAt_iff.mp (hw.isDirAt_of_append hnil hx)
              exact ⟨.dir m, hm⟩
          obtain ⟨s, hs, hkind⟩ := (ih hy hdeeper).mpr ⟨x, hx, hkind⟩
          exact ⟨s, ⟨_, _, treeAt_dir fs d p mode,
            Folder.lists_ofList.mpr ((mem_branches hw).mpr ⟨y, hy, rfl⟩), hs⟩, hkind⟩
    | _ =>
      have hnone : fs.get? (p ++ n :: ns) = none :=
        hw.get?_append_eq_none (List.cons_ne_nil n ns) (by rw [isDirAt, he]; rfl)
      rw [hnone]
      constructor
      · rintro ⟨s, ⟨f, u, hf, -⟩, -⟩
        cases d <;> cases hf
      · rintro ⟨x, hx, -⟩
        cases hx

/-! ## The entries of a listing -/

/-- The entries below a place to which nothing excluded leads, in order. -/
def listingAt (fs : FileSystem) (skip : Exclusion) (p : Place) : List Listed :=
  sortBy (fun a b => namesLe a.names b.names)
    (((fs.below p).filter fun (ns, _) => Kept skip ns).map fun (ns, e) => ⟨ns, e.kind⟩)

theorem mem_below (hw : fs.WellFormed) :
    (ns, x) ∈ fs.below p ↔ ns ≠ [] ∧ fs.get? (p ++ ns) = some x := by
  rw [below, List.mem_filterMap]
  constructor
  · rintro ⟨⟨q, y⟩, hmem, hq⟩
    dsimp only at hq
    split at hq
    · next hpre =>
      rw [Bool.and_eq_true, List.isPrefixOf_iff_prefix, bne_iff_ne] at hpre
      obtain ⟨⟨ms, rfl⟩, hne⟩ := hpre
      rw [Option.some.injEq, Prod.mk.injEq, List.drop_left] at hq
      obtain ⟨rfl, rfl⟩ := hq
      exact ⟨fun hnil => hne (by rw [hnil, List.append_nil]), hw.get?_of_mem hmem⟩
    · cases hq
  · rintro ⟨hne, hx⟩
    refine ⟨(p ++ ns, x), mem_entries (by simp [hne]) hx, ?_⟩
    simp [hne]

theorem mem_listingAt (hw : fs.WellFormed) : a ∈ fs.listingAt skip p ↔
    a.names ≠ [] ∧ Kept skip a.names ∧ ∃ x, fs.get? (p ++ a.names) = some x ∧ x.kind = a.kind := by
  rw [listingAt, (sortBy_perm _ _).mem_iff, List.mem_map]
  constructor
  · rintro ⟨⟨ns, x⟩, hmem, rfl⟩
    obtain ⟨hbelow, hkept⟩ := List.mem_filter.mp hmem
    obtain ⟨hne, hx⟩ := (mem_below hw).mp hbelow
    exact ⟨hne, of_decide_eq_true hkept, x, hx, rfl⟩
  · rintro ⟨hne, hkept, x, hx, hkind⟩
    refine ⟨(a.names, x), List.mem_filter.mpr ⟨(mem_below hw).mpr ⟨hne, hx⟩, ?_⟩, ?_⟩
    · exact decide_eq_true hkept
    · dsimp only
      rw [hkind]

/-- An entry is listed exactly if nothing on the way to it is excluded, nor itself. -/
theorem listed_iff (hw : fs.WellFormed) : (∃ a ∈ fs.listingAt skip p, a.names = ns) ↔
    ns ≠ [] ∧ Kept skip ns ∧ fs.get? (p ++ ns) ≠ none := by
  constructor
  · rintro ⟨a, ha, rfl⟩
    obtain ⟨hne, hkept, x, hx, -⟩ := (mem_listingAt hw).mp ha
    exact ⟨hne, hkept, by simp [hx]⟩
  · rintro ⟨hne, hkept, hget⟩
    obtain ⟨x, hx⟩ := Option.ne_none_iff_exists'.mp hget
    exact ⟨⟨ns, x.kind⟩, (mem_listingAt hw).mpr ⟨hne, hkept, x, hx, rfl⟩, rfl⟩

theorem nodup_below (hw : fs.WellFormed) (p : Place) : ((fs.below p).map Prod.fst).Nodup := by
  have hkeys : fs.entries.Pairwise fun x y => x.1 ≠ y.1 := List.pairwise_map.mp hw.nodup
  refine List.pairwise_map.mpr (List.pairwise_filterMap.mpr (hkeys.imp ?_))
  rintro ⟨q, y⟩ ⟨q', y'⟩ hne ⟨ns, z⟩ hz ⟨ns', z'⟩ hz' rfl
  dsimp only at hz hz' hne
  split at hz
  · next h =>
    split at hz'
    · next h' =>
      rw [Bool.and_eq_true, List.isPrefixOf_iff_prefix] at h h'
      obtain ⟨⟨as, rfl⟩, -⟩ := h
      obtain ⟨⟨bs, rfl⟩, -⟩ := h'
      rw [Option.some.injEq, Prod.mk.injEq, List.drop_left] at hz hz'
      exact hne (by rw [hz.1, hz'.1])
    · cases hz'
  · cases hz

theorem pairwise_listingAt (hw : fs.WellFormed) (skip : Exclusion) (p : Place) :
    (fs.listingAt skip p).Pairwise Listed.Before := by
  refine pairwise_before ?_
  rw [List.map_map]
  exact (nodup_below hw p).sublist (List.filter_sublist.map Prod.fst)

/-- The listing of a place has what is in its tree. -/
theorem mem_listingAt_iff_leadsTo (hw : fs.WellFormed) (he : fs.get? p = some e) :
    a ∈ fs.listingAt skip p ↔ a.names ≠ [] ∧ Kept skip a.names ∧
      ∃ s, (fs.treeAt fs.depth p e).LeadsTo a.names s ∧ s.kind = a.kind := by
  have hdeep : ∀ ns x, fs.get? (p ++ ns) = some x → ns.length ≤ fs.depth := by
    intro ns x hx
    have hlen := length_le_depth hx
    rw [List.length_append] at hlen
    omega
  rw [mem_listingAt hw, exists_leadsTo_treeAt hw he hdeep]

theorem listing_treeAt (hw : fs.WellFormed) (he : fs.get? p = some e) (skip : Exclusion)
    (root : Path) : (fs.treeAt fs.depth p e).listing skip root = .ok (fs.listingAt skip p) := by
  rcases FileTree.listing_cases (fs.treeAt fs.depth p e) skip root with
    ⟨x, -, ns, s, hs, -, hx⟩ | ⟨L, hL, -⟩
  · rw [failure?_of_treeAt hw hs] at hx
    cases hx
  · obtain ⟨hsorted, hmem⟩ := FileTree.listing_eq_ok (wellFormed_treeAt hw fs.depth p e) hL
    have hsame : L = fs.listingAt skip p :=
      hsorted.eq_of_mem_iff (pairwise_listingAt hw skip p) fun a => by
        rw [hmem, mem_listingAt_iff_leadsTo hw he]
    rw [hL, hsame]

theorem isListing_listingAt (hw : fs.WellFormed) (he : fs.get? p = some e) (skip : Exclusion) :
    (fs.treeAt fs.depth p e).IsListing skip (fs.listingAt skip p) :=
  FileTree.isListing_of_pairwise (wellFormed_treeAt hw fs.depth p e)
    (pairwise_listingAt hw skip p) fun _ => mem_listingAt_iff_leadsTo hw he

/-- No entry is listed twice. -/
theorem nodup_listingAt (hw : fs.WellFormed) (skip : Exclusion) (p : Place) :
    ((fs.listingAt skip p).map Listed.names).Nodup :=
  List.pairwise_map.mpr ((pairwise_listingAt hw skip p).imp fun h => h.2)

/-- What is above a listed entry comes before it, as a directory. -/
theorem mem_of_isPrefix (hw : fs.WellFormed) {done rest : List Listed}
    (hL : fs.listingAt skip p = done ++ a :: rest) (hne : ms ≠ []) (hms : ms <+: a.names)
    (hlt : ms ≠ a.names) : ⟨ms, .dir⟩ ∈ done := by
  have ha : a ∈ fs.listingAt skip p := by simp [hL]
  obtain ⟨hnames, -, x, hx, -⟩ := (mem_listingAt hw).mp ha
  obtain ⟨m, hm⟩ := isDirAt_iff.mp (hw.isDirAt_of_append hnames hx)
  exact (isListing_listingAt hw hm skip).above done a rest hL ms hne hms hlt

/-- The listing of a path, from the map of places. -/
theorem listing_eq (hw : fs.WellFormed) (cwd : Place) (skip : Exclusion) (root : Path) :
    fs.listing cwd skip root =
      match fs.stat cwd root true with
      | .error e => .error ⟨some root, e⟩
      | .ok (p, .dir _) => .ok (fs.listingAt skip p)
      | .ok _ => .ok [] := by
  rw [listing]
  cases hstat : fs.stat cwd root true with
  | error e => rfl
  | ok r =>
    obtain ⟨p, e⟩ := r
    cases e with
    | dir m => exact listing_treeAt hw (get?_of_lookup (stat_eq_ok_iff.mp hstat)) skip root
    | _ => cases fs.depth <;> rfl

end FileSystem

end CodeIndex

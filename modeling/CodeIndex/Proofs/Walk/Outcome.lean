import CodeIndex.Proofs.Path.Order
import CodeIndex.Proofs.Walk.Tree

/-!
# What walks come by

A walk enters every directory below its root that is not excluded, whatever the order in which
directories list their entries, and fails if one of those cannot be read. So what is listed depends
on what is there only.

* `FileTree.Meets`, `FileTree.Fails` : the entries and the failures on the way of a walk;
* `FileTree.outcome_walk` : a walk fails on its way, or comes by all entries that are on it;
* `FileTree.nodup_walk` : it comes by none of them twice;
* `FileTree.IsListing`, `FileTree.Blocks` : what a listing has, and what is in its way;
* `FileTree.listing_complete` : a tree is listed, unless a directory that is not excluded cannot be
  read.
-/

namespace CodeIndex

variable {skip : Exclusion} {root : Path} {front ns ms : List String} {n : String}
  {t t' s : FileTree} {f : Folder} {e : Listed} {x : ListingError}

/-! ## What is kept -/

/-- The non-empty beginnings of a list, the list itself included. -/
def beginnings : List String → List (List String)
  | [] => []
  | a :: as => [a] :: (beginnings as).map (a :: ·)

theorem mem_beginnings {ms ns : List String} : ms ∈ beginnings ns ↔ ms ≠ [] ∧ ms <+: ns := by
  induction ns generalizing ms with
  | nil => simp [beginnings]
  | cons n ns ih =>
    rw [beginnings, List.mem_cons, List.mem_map]
    constructor
    · rintro (rfl | ⟨a, ha, rfl⟩)
      · exact ⟨by simp, List.cons_prefix_cons.mpr ⟨rfl, List.nil_prefix⟩⟩
      · exact ⟨by simp, List.cons_prefix_cons.mpr ⟨rfl, (ih.mp ha).2⟩⟩
    · rintro ⟨hne, hpre⟩
      cases ms with
      | nil => exact absurd rfl hne
      | cons m ms =>
        obtain ⟨rfl, hms⟩ := List.cons_prefix_cons.mp hpre
        by_cases hnil : ms = []
        · exact Or.inl (by rw [hnil])
        · exact Or.inr ⟨ms, ih.mpr ⟨hnil, hms⟩, rfl⟩

namespace FileSystem

/-- Nothing on the way to an entry is excluded, nor itself. -/
def Kept (skip : Exclusion) (ns : List String) : Prop := ∀ ms ∈ beginnings ns, skip ms = false

instance (skip : Exclusion) (ns : List String) : Decidable (Kept skip ns) := by
  unfold Kept
  infer_instance

theorem Kept.of_prefix (h : Kept skip ns) (hms : ms <+: ns) : Kept skip ms := fun as has => by
  rw [mem_beginnings] at has
  exact h as (mem_beginnings.mpr ⟨has.1, has.2.trans hms⟩)

end FileSystem

open FileSystem (Kept)

/-! ## What is on the way of a walk -/

/-- A walk that is where `front` lead enters every directory that it has to on its way from there
to an entry, and the entry too if it is a directory. -/
def Exclusion.Passes (skip : Exclusion) (front ns : List String) (kind : ListedKind) : Prop :=
  ∀ ms, ms <+: ns → ms ≠ ns ∨ kind = .dir → skip.enters (front ++ ms) = true

theorem Exclusion.passes_nil {kind : ListedKind} :
    skip.Passes front [] kind ↔ kind = .dir → skip.enters front = true := by
  simp [Passes]

theorem Exclusion.passes_cons {kind : ListedKind} : skip.Passes front (n :: ns) kind ↔
    skip.enters front = true ∧ skip.Passes (front ++ [n]) ns kind := by
  constructor
  · intro h
    refine ⟨by simpa using h [] List.nil_prefix (Or.inl (List.cons_ne_nil n ns).symm), ?_⟩
    intro ms hms hkind
    have hcons := h (n :: ms) (List.cons_prefix_cons.mpr ⟨rfl, hms⟩)
      (hkind.imp_left fun hne heq => hne (List.cons_inj_right n |>.mp heq))
    rwa [List.append_assoc, List.singleton_append]
  · rintro ⟨henters, h⟩ ms hms hkind
    cases ms with
    | nil => rwa [List.append_nil]
    | cons m ms =>
      obtain ⟨rfl, hrest⟩ := List.cons_prefix_cons.mp hms
      have hrest := h ms hrest (hkind.imp_left fun hne heq => hne (by rw [heq]))
      rwa [List.append_assoc, List.singleton_append] at hrest

/-- The directories on the way from the root are entered and an entry is not excluded exactly if
nothing on the way to it is excluded, nor itself. -/
theorem kept_iff_passes {kind : ListedKind} (hne : ns ≠ []) :
    Kept skip ns ↔ skip.Passes [] ns kind ∧ skip ns = false := by
  constructor
  · intro h
    refine ⟨fun ms hms _ => ?_, h ns (mem_beginnings.mpr ⟨hne, List.prefix_refl ns⟩)⟩
    by_cases hnil : ms = []
    · simp [hnil, Exclusion.enters]
    · simp [Exclusion.enters, h ms (mem_beginnings.mpr ⟨hnil, hms⟩)]
  · rintro ⟨hpass, hns⟩ ms hms
    obtain ⟨hnil, hpre⟩ := mem_beginnings.mp hms
    by_cases heq : ms = ns
    · rwa [heq]
    · simpa [Exclusion.enters, hnil] using hpass ms hpre (Or.inl heq)

theorem kept_iff_passes_dir : Kept skip ns ↔ skip.Passes [] ns .dir := by
  by_cases hne : ns = []
  · subst hne
    simp [Kept, beginnings, Exclusion.passes_nil, Exclusion.enters]
  · rw [kept_iff_passes hne, and_iff_left_iff_imp]
    intro h
    simpa [Exclusion.enters, hne] using h ns (List.prefix_refl ns) (Or.inr rfl)

/-- The entry is on the way of a walk that comes to the tree by `front`. -/
def FileTree.Meets (skip : Exclusion) (front : List String) (t : FileTree) (e : Listed) : Prop :=
  ∃ ns s, t.LeadsTo ns s ∧ skip.Passes front ns s.kind ∧ e = ⟨front ++ ns, s.kind⟩

/-- The failure is on the way of a walk that comes to the tree by `front`. -/
def FileTree.Fails (skip : Exclusion) (root : Path) (front : List String) (t : FileTree)
    (x : ListingError) : Prop :=
  ∃ ns s, t.LeadsTo ns s ∧ skip.Passes front ns s.kind ∧
    s.failure? (root.below (front ++ ns)) = some x

def Folder.Meets (skip : Exclusion) (front : List String) (f : Folder) (e : Listed) : Prop :=
  ∃ n t, f.Lists n t ∧ t.Meets skip (front ++ [n]) e

def Folder.Fails (skip : Exclusion) (root : Path) (front : List String) (f : Folder)
    (x : ListingError) : Prop :=
  f.cause?.map (⟨none, ·⟩) = some x ∨ ∃ n t, f.Lists n t ∧ t.Fails skip root (front ++ [n]) x

theorem FileTree.meets_dir : (FileTree.dir f).Meets skip front e ↔
    skip.enters front = true ∧ (e = ⟨front, .dir⟩ ∨ f.Meets skip front e) := by
  constructor
  · rintro ⟨_ | ⟨n, ns⟩, s, h, hpass, rfl⟩
    · rw [leadsTo_nil] at h
      subst h
      exact ⟨Exclusion.passes_nil.mp hpass rfl, Or.inl (by rw [List.append_nil]; rfl)⟩
    · obtain ⟨f, u, hf, hl, h⟩ := leadsTo_cons.mp h
      cases hf
      obtain ⟨henters, hpass⟩ := Exclusion.passes_cons.mp hpass
      exact ⟨henters, Or.inr ⟨n, u, hl, ns, s, h, hpass, by simp⟩⟩
  · rintro ⟨henters, rfl | ⟨n, u, hl, ns, s, h, hpass, rfl⟩⟩
    · exact ⟨[], .dir f, .here, Exclusion.passes_nil.mpr fun _ => henters, by simp [kind]⟩
    · exact ⟨n :: ns, s, .down hl h, Exclusion.passes_cons.mpr ⟨henters, hpass⟩, by simp⟩

theorem FileTree.fails_dir : (FileTree.dir f).Fails skip root front x ↔
    skip.enters front = true ∧ f.Fails skip root front x := by
  constructor
  · rintro ⟨_ | ⟨n, ns⟩, s, h, hpass, hx⟩
    · rw [leadsTo_nil] at h
      subst h
      exact ⟨Exclusion.passes_nil.mp hpass rfl, Or.inl hx⟩
    · obtain ⟨f, u, hf, hl, h⟩ := leadsTo_cons.mp h
      cases hf
      obtain ⟨henters, hpass⟩ := Exclusion.passes_cons.mp hpass
      exact ⟨henters, Or.inr ⟨n, u, hl, ns, s, h, hpass, by simpa using hx⟩⟩
  · rintro ⟨henters, hx | ⟨n, u, hl, ns, s, h, hpass, hx⟩⟩
    · exact ⟨[], .dir f, .here, Exclusion.passes_nil.mpr fun _ => henters, hx⟩
    · exact ⟨n :: ns, s, .down hl h, Exclusion.passes_cons.mpr ⟨henters, hpass⟩,
        by simpa using hx⟩

/-! ## Walks -/

/-- A failure out of those that are there, or else all entries. -/
def IsOutcome (fails : ListingError → Prop) (meets : Listed → Prop) :
    Except ListingError (List Listed) → Prop
  | .error x => fails x
  | .ok L => (∀ x, ¬ fails x) ∧ ∀ e, e ∈ L ↔ meets e

theorem IsOutcome.nothing {fails : ListingError → Prop} {meets : Listed → Prop}
    (hfails : ∀ x, ¬ fails x) (hmeets : ∀ e, ¬ meets e) : IsOutcome fails meets (.ok []) :=
  ⟨hfails, fun e => ⟨fun he => absurd he List.not_mem_nil, fun he => absurd he (hmeets e)⟩⟩

theorem IsOutcome.append {fails fails' : ListingError → Prop} {meets meets' : Listed → Prop}
    {r r' : Except ListingError (List Listed)} (h : IsOutcome fails meets r)
    (h' : IsOutcome fails' meets' r') :
    IsOutcome (fun x => fails x ∨ fails' x) (fun e => meets e ∨ meets' e)
      (do let L ← r; let L' ← r'; pure (L ++ L')) := by
  cases r with
  | error x => exact Or.inl h
  | ok L =>
    cases r' with
    | error x => exact Or.inr h'
    | ok L' =>
      refine ⟨fun x hx => hx.elim (h.1 x) (h'.1 x), fun e => ?_⟩
      rw [List.mem_append, h.2, h'.2]

theorem IsOutcome.congr {fails fails' : ListingError → Prop} {meets meets' : Listed → Prop}
    {r : Except ListingError (List Listed)} (h : IsOutcome fails meets r)
    (hfails : ∀ x, fails x ↔ fails' x) (hmeets : ∀ e, meets e ↔ meets' e) :
    IsOutcome fails' meets' r := by
  cases r with
  | error x => exact (hfails x).mp h
  | ok L => exact ⟨fun x hx => h.1 x ((hfails x).mpr hx), fun e => (h.2 e).trans (hmeets e)⟩

/-- A tree that a walk cannot go down from. -/
theorem FileTree.outcome_leaf (ht : ∀ n ns s, ¬ t.LeadsTo (n :: ns) s)
    (hkind : t.kind ≠ .dir) (hfail : ∀ place, t.failure? place = none) :
    IsOutcome (t.Fails skip root front) (t.Meets skip front) (.ok [⟨front, t.kind⟩]) := by
  have hhere : ∀ {ns s}, t.LeadsTo ns s → ns = [] ∧ s = t := by
    intro ns s h
    cases ns with
    | nil => exact ⟨rfl, leadsTo_nil.mp h⟩
    | cons n ns => exact absurd h (ht n ns s)
  constructor
  · rintro x ⟨ns, s, h, -, hx⟩
    rw [(hhere h).2, hfail] at hx
    cases hx
  · intro e
    rw [List.mem_singleton]
    constructor
    · rintro rfl
      exact ⟨[], t, .here, Exclusion.passes_nil.mpr fun h => absurd h hkind, by simp⟩
    · rintro ⟨ns, s, h, -, rfl⟩
      obtain ⟨rfl, rfl⟩ := hhere h
      rw [List.append_nil]

mutual

/-- A walk fails on its way, or comes by all entries that are on it. -/
theorem FileTree.outcome_walk (skip : Exclusion) (root : Path) (front : List String) :
    ∀ t : FileTree, IsOutcome (t.Fails skip root front) (t.Meets skip front)
      (t.walk skip root front)
  | .file => FileTree.outcome_leaf (fun _ _ _ => nofun) nofun fun _ => rfl
  | .link => FileTree.outcome_leaf (fun _ _ _ => nofun) nofun fun _ => rfl
  | .shut cause => by
    rw [FileTree.walk]
    split
    · next henters =>
      exact ⟨[], .shut cause, .here, Exclusion.passes_nil.mpr fun _ => henters,
        by rw [List.append_nil]; rfl⟩
    · next henters =>
      have hnone : ∀ {ns s}, (FileTree.shut cause).LeadsTo ns s → ¬ skip.Passes front ns s.kind := by
        rintro ns s ⟨⟩ hpass
        exact henters (Exclusion.passes_nil.mp hpass rfl)
      refine .nothing ?_ ?_
      · rintro x ⟨ns, s, h, hpass, -⟩
        exact hnone h hpass
      · rintro e ⟨ns, s, h, hpass, -⟩
        exact hnone h hpass
  | .dir folder => by
    rw [FileTree.walk]
    split
    · next henters =>
      have hwalk := Folder.outcome_walk skip root front folder
      have hroot : IsOutcome (fun _ => False) (· = ⟨front, .dir⟩) (.ok [⟨front, .dir⟩]) :=
        ⟨fun _ => id, fun e => List.mem_singleton⟩
      have hcons : (folder.walk skip root front).map (⟨front, .dir⟩ :: ·) =
          (do let L ← Except.ok [⟨front, .dir⟩]; let L' ← folder.walk skip root front
              pure (L ++ L')) := by
        cases folder.walk skip root front <;> rfl
      rw [hcons]
      refine (hroot.append hwalk).congr (fun x => ?_) fun e => ?_
      · rw [FileTree.fails_dir, false_or, and_iff_right henters]
      · rw [FileTree.meets_dir, and_iff_right henters]
    · next henters =>
      exact .nothing (fun x hx => henters (FileTree.fails_dir.mp hx).1)
        fun e he => henters (FileTree.meets_dir.mp he).1

theorem Folder.outcome_walk (skip : Exclusion) (root : Path) (front : List String) :
    ∀ f : Folder, IsOutcome (f.Fails skip root front) (f.Meets skip front)
      (f.walk skip root front)
  | .done => by
    refine .nothing ?_ ?_
    · rintro x (h | ⟨n, t, h, -⟩) <;> cases h
    · rintro e ⟨n, t, h, -⟩
      cases h
  | .broken cause => Or.inl rfl
  | .entry name tree rest => by
    refine ((FileTree.outcome_walk skip root (front ++ [name]) tree).append
      (Folder.outcome_walk skip root front rest)).congr (fun x => ?_) fun e => ?_
    · simp only [Folder.Fails, Folder.lists_entry, Folder.cause?, or_and_right, exists_or]
      rw [or_left_comm]
      simp
    · simp only [Folder.Meets, Folder.lists_entry, or_and_right, exists_or]
      simp

end

/-! ## Entries come once -/

theorem FileTree.Meets.names_eq (h : t.Meets skip front e) : ∃ ns, e.names = front ++ ns := by
  obtain ⟨ns, s, -, -, rfl⟩ := h
  exact ⟨ns, rfl⟩

theorem Folder.Meets.names_eq (h : f.Meets skip front e) :
    ∃ n ∈ f.names, ∃ ns, e.names = front ++ n :: ns := by
  obtain ⟨n, t, hl, ht⟩ := h
  obtain ⟨ns, hns⟩ := ht.names_eq
  exact ⟨n, hl.mem_names, ns, by simp [hns]⟩

theorem FileTree.mem_walk {L : List Listed} (h : t.walk skip root front = .ok L) :
    e ∈ L ↔ t.Meets skip front e := by
  have hout := t.outcome_walk skip root front
  rw [h] at hout
  exact hout.2 e

theorem Folder.mem_walk {L : List Listed} (h : f.walk skip root front = .ok L) :
    e ∈ L ↔ f.Meets skip front e := by
  have hout := f.outcome_walk skip root front
  rw [h] at hout
  exact hout.2 e

theorem FileTree.walk_dir_eq_ok {L : List Listed}
    (h : (FileTree.dir f).walk skip root front = .ok L) :
    L = [] ∨ ∃ L', f.walk skip root front = .ok L' ∧ L = ⟨front, .dir⟩ :: L' := by
  rw [FileTree.walk] at h
  split at h
  · cases hf : f.walk skip root front with
    | error x =>
      rw [hf] at h
      cases h
    | ok L' =>
      rw [hf] at h
      exact Or.inr ⟨L', rfl, (Except.ok.inj h).symm⟩
  · exact Or.inl (Except.ok.inj h).symm

theorem Folder.walk_entry_eq_ok {L : List Listed}
    (h : (Folder.entry n t f).walk skip root front = .ok L) :
    ∃ first others, t.walk skip root (front ++ [n]) = .ok first ∧
      f.walk skip root front = .ok others ∧ L = first ++ others := by
  rw [Folder.walk] at h
  cases hfirst : t.walk skip root (front ++ [n]) with
  | error x =>
    rw [hfirst] at h
    cases h
  | ok first =>
    cases hothers : f.walk skip root front with
    | error x =>
      rw [hfirst, hothers] at h
      cases h
    | ok others =>
      rw [hfirst, hothers] at h
      exact ⟨first, others, rfl, rfl, (Except.ok.inj h).symm⟩

mutual

/-- A walk comes by no entry twice. -/
theorem FileTree.nodup_walk (skip : Exclusion) (root : Path) (front : List String) :
    ∀ (t : FileTree), t.WellFormed → ∀ L, t.walk skip root front = .ok L →
      (L.map Listed.names).Nodup
  | .file, _, L, h => by cases h; simp
  | .link, _, L, h => by cases h; simp
  | .shut cause, _, L, h => by
    rw [FileTree.walk] at h
    split at h <;> cases h
    simp
  | .dir folder, ht, L, h => by
    rcases FileTree.walk_dir_eq_ok h with rfl | ⟨L', hf, rfl⟩
    · simp
    · rw [List.map_cons, List.nodup_cons]
      refine ⟨fun hmem => ?_, Folder.nodup_walk skip root front folder ht L' hf⟩
      -- Names of what is in a directory go on from those of the directory.
      obtain ⟨e, he, hfront⟩ := List.mem_map.mp hmem
      obtain ⟨n, -, ns, hns⟩ := ((Folder.mem_walk hf).mp he).names_eq
      rw [hns] at hfront
      simp at hfront

theorem Folder.nodup_walk (skip : Exclusion) (root : Path) (front : List String) :
    ∀ (f : Folder), f.WellFormed → ∀ L, f.walk skip root front = .ok L →
      (L.map Listed.names).Nodup
  | .done, _, L, h => by cases h; simp
  | .broken cause, _, L, h => by cases h
  | .entry name tree rest, ⟨_, hname, htree, hrest⟩, L, h => by
    obtain ⟨first, others, hfirst, hothers, rfl⟩ := Folder.walk_entry_eq_ok h
    rw [List.map_append, List.nodup_append]
    refine ⟨FileTree.nodup_walk skip root _ tree htree first hfirst,
      Folder.nodup_walk skip root front rest hrest others hothers, ?_⟩
    rintro as has bs hbs rfl
    obtain ⟨a, ha, rfl⟩ := List.mem_map.mp has
    obtain ⟨b, hb, hab⟩ := List.mem_map.mp hbs
    obtain ⟨ns, hns⟩ := ((FileTree.mem_walk hfirst).mp ha).names_eq
    obtain ⟨m, hm, ms, hms⟩ := ((Folder.mem_walk hothers).mp hb).names_eq
    rw [hms, hns, List.append_assoc, List.append_cancel_left_eq] at hab
    exact hname ((List.cons.inj hab).1 ▸ hm)

end

/-! ## Listings -/

namespace Listed

/-- By their names one comes before the other. -/
def Before (a b : Listed) : Prop := namesLe a.names b.names = true ∧ a.names ≠ b.names

instance : Std.Irrefl Before := ⟨fun _ h => h.2 rfl⟩

instance : Std.Antisymm Before :=
  ⟨fun _ _ h h' => absurd (namesLe_antisymm h.1 h'.1) h.2⟩

end Listed

theorem pairwise_before {L : List Listed} (h : (L.map Listed.names).Nodup) :
    (sortBy (fun a b => namesLe a.names b.names) L).Pairwise Listed.Before := by
  have hsorted := pairwise_sortBy (fun a b : Listed => namesLe_total a.names b.names)
    (fun a b c => namesLe_trans a.names b.names c.names) L
  have hperm := (sortBy_perm (fun a b => namesLe a.names b.names) L).map Listed.names
  exact hsorted.and (List.pairwise_map.mp (hperm.nodup_iff.mpr h))

namespace FileTree

/-- A list has the entries below the root of a tree to which nothing excluded leads and that are not
excluded, each once and in the order of their paths, so that what is above an entry comes first. -/
structure IsListing (t : FileTree) (skip : Exclusion) (L : List Listed) : Prop where
  mem_iff : ∀ e, e ∈ L ↔
    e.names ≠ [] ∧ Kept skip e.names ∧ ∃ s, t.LeadsTo e.names s ∧ s.kind = e.kind
  nodup : (L.map Listed.names).Nodup
  sorted : L.Pairwise fun a b => a.path.compare b.path = .lt
  above : ∀ done e rest, L = done ++ e :: rest → ∀ ms ≠ [], ms <+: e.names → ms ≠ e.names →
    ⟨ms, .dir⟩ ∈ done

/-- A directory that is not excluded, nor anything on the way to it, cannot be read. -/
def Blocks (t : FileTree) (skip : Exclusion) (root : Path) (x : ListingError) : Prop :=
  ∃ ns s, t.LeadsTo ns s ∧ Kept skip ns ∧ s.failure? (root.below ns) = some x

theorem kind_of_failure? {place : Path} (h : t.failure? place = some x) : t.kind = .dir := by
  cases t with
  | shut cause => rfl
  | dir folder => rfl
  | _ => cases h

theorem blocks_iff_fails : t.Blocks skip root x ↔ t.Fails skip root [] x := by
  constructor
  · rintro ⟨ns, s, h, hkept, hx⟩
    refine ⟨ns, s, h, ?_, hx⟩
    rw [kind_of_failure? hx]
    exact kept_iff_passes_dir.mp hkept
  · rintro ⟨ns, s, h, hpass, hx⟩
    rw [kind_of_failure? hx] at hpass
    exact ⟨ns, s, h, kept_iff_passes_dir.mpr hpass, hx⟩

/-- The entries that are listed. -/
theorem mem_filter_walk {L : List Listed} (h : t.walk skip root [] = .ok L) :
    e ∈ L.filter (fun e => !e.names.isEmpty && !skip e.names) ↔
      e.names ≠ [] ∧ Kept skip e.names ∧ ∃ s, t.LeadsTo e.names s ∧ s.kind = e.kind := by
  rw [List.mem_filter, mem_walk h]
  simp only [Bool.and_eq_true, Bool.not_eq_true', List.isEmpty_eq_false_iff]
  constructor
  · rintro ⟨⟨ns, s, hs, hpass, rfl⟩, hne, hskip⟩
    exact ⟨hne, (kept_iff_passes hne).mpr ⟨hpass, hskip⟩, s, hs, rfl⟩
  · rintro ⟨hne, hkept, s, hs, hkind⟩
    obtain ⟨hpass, hskip⟩ := (kept_iff_passes hne).mp hkept
    exact ⟨⟨e.names, s, hs, hpass, by rw [hkind]; rfl⟩, hne, hskip⟩

theorem listing_eq_ok {L : List Listed} (ht : t.WellFormed) (h : t.listing skip root = .ok L) :
    L.Pairwise Listed.Before ∧ ∀ e, e ∈ L ↔
      e.names ≠ [] ∧ Kept skip e.names ∧ ∃ s, t.LeadsTo e.names s ∧ s.kind = e.kind := by
  rw [listing] at h
  cases hwalk : t.walk skip root [] with
  | error x =>
    rw [hwalk] at h
    cases h
  | ok L' =>
    rw [hwalk] at h
    obtain rfl := Except.ok.inj h
    have hnodup := nodup_walk skip root [] t ht L' hwalk
    refine ⟨pairwise_before (hnodup.sublist (List.filter_sublist.map _)), fun e => ?_⟩
    rw [(sortBy_perm _ _).mem_iff]
    exact mem_filter_walk hwalk

theorem isListing_of_pairwise {L : List Listed} (ht : t.WellFormed)
    (hsorted : L.Pairwise Listed.Before) (hmem : ∀ e, e ∈ L ↔
      e.names ≠ [] ∧ Kept skip e.names ∧ ∃ s, t.LeadsTo e.names s ∧ s.kind = e.kind) :
    t.IsListing skip L := by
  have hplain : ∀ e ∈ L, e.names ≠ [] ∧ PlainPlace e.names := by
    intro e he
    obtain ⟨hne, -, s, hs, -⟩ := (hmem e).mp he
    exact ⟨hne, ht.plainPlace hs⟩
  refine ⟨hmem, List.pairwise_map.mpr (hsorted.imp fun h => h.2), ?_, ?_⟩
  · refine hsorted.imp_of_mem fun {a b} ha hb h => ?_
    obtain ⟨hane, haplain⟩ := hplain a ha
    obtain ⟨hbne, hbplain⟩ := hplain b hb
    exact (Path.compare_relative haplain hbplain hane hbne).mpr h
  · rintro done e rest rfl ms hne hms hlt
    obtain ⟨-, hkept, s, hs, -⟩ := (hmem e).mp (by simp)
    obtain ⟨f, hf⟩ := hs.exists_dir hms hlt
    have hlisted := (hmem ⟨ms, .dir⟩).mpr ⟨hne, hkept.of_prefix hms, .dir f, hf, rfl⟩
    rcases List.mem_append.mp hlisted with hdone | hlater
    · exact hdone
    · -- What goes on from names comes after them.
      exfalso
      rcases List.mem_cons.mp hlater with heq | hlater
      · exact hlt (congrArg Listed.names heq)
      · have hbefore := (List.pairwise_cons.mp (List.pairwise_append.mp hsorted).2.1).1 _ hlater
        obtain ⟨as, has⟩ := hms
        have hnil : as ≠ [] := fun hnil => hlt (by rw [← has, hnil, List.append_nil])
        rw [Listed.Before, ← has, namesLe_append_eq_false hnil] at hbefore
        cases hbefore.1

theorem Reordered.blocks (h : t.Reordered t') (hx : t.Blocks skip root x) :
    t'.Blocks skip root x := by
  obtain ⟨ns, s, hs, hkept, hfail⟩ := hx
  obtain ⟨s', hs', hss⟩ := h.exists_leadsTo hs
  exact ⟨ns, s', hs', hkept, by rw [hss.failure?_eq, hfail]⟩

theorem Reordered.exists_kind (h : t.Reordered t') {kind : ListedKind} :
    (∃ s, t.LeadsTo ns s ∧ s.kind = kind) → ∃ s, t'.LeadsTo ns s ∧ s.kind = kind := by
  rintro ⟨s, hs, rfl⟩
  obtain ⟨s', hs', hss⟩ := h.exists_leadsTo hs
  exact ⟨s', hs', hss.kind_eq⟩

/-- Either a directory that is not excluded cannot be read, or nothing of the kind is there and
the listing is made. -/
theorem listing_cases (t : FileTree) (skip : Exclusion) (root : Path) :
    (∃ x, t.listing skip root = .error x ∧ t.Blocks skip root x) ∨
      ∃ L, t.listing skip root = .ok L ∧ ∀ x, ¬ t.Blocks skip root x := by
  have hout := t.outcome_walk skip root []
  simp only [blocks_iff_fails]
  rw [listing]
  cases hwalk : t.walk skip root [] with
  | error x =>
    rw [hwalk] at hout
    exact Or.inl ⟨x, rfl, hout⟩
  | ok L =>
    rw [hwalk] at hout
    exact Or.inr ⟨_, rfl, hout.1⟩

/-- The order in which directories list their entries does not show. -/
theorem Reordered.listing_eq (ht : t.WellFormed) (h : t.Reordered t') (skip : Exclusion)
    (root : Path) : (t'.listing skip root).toOption = (t.listing skip root).toOption := by
  rcases listing_cases t skip root with ⟨x, hL, hx⟩ | ⟨L, hL, hnone⟩ <;>
    rcases listing_cases t' skip root with ⟨x', hL', hx'⟩ | ⟨L', hL', hnone'⟩
  · rw [hL, hL']
    rfl
  · exact absurd (h.blocks hx) (hnone' x)
  · exact absurd (h.symm.blocks hx') (hnone x')
  · obtain ⟨hsorted, hmem⟩ := listing_eq_ok ht hL
    obtain ⟨hsorted', hmem'⟩ := listing_eq_ok (h.wellFormed ht) hL'
    have hsame : L' = L := by
      refine hsorted'.eq_of_mem_iff hsorted fun e => ?_
      rw [hmem, hmem']
      have hkind : (∃ s, t'.LeadsTo e.names s ∧ s.kind = e.kind) ↔
          ∃ s, t.LeadsTo e.names s ∧ s.kind = e.kind := ⟨h.symm.exists_kind, h.exists_kind⟩
      rw [hkind]
    rw [hL, hL', hsame]

/-- Listing a tree fails because a directory that is not excluded cannot be read, or gives the
listing of the tree. What is below an excluded directory makes nothing fail, and nothing depends on
the order in which directories list their entries. -/
theorem listing_complete (ht : t.WellFormed) (skip : Exclusion) (root : Path) :
    ((∃ x, t.listing skip root = .error x ∧ t.Blocks skip root x) ∨
      ∃ L, t.listing skip root = .ok L ∧ t.IsListing skip L ∧ ∀ x, ¬ t.Blocks skip root x) ∧
    ∀ t', t.Reordered t' → (t'.listing skip root).toOption = (t.listing skip root).toOption := by
  refine ⟨?_, fun t' h => h.listing_eq ht skip root⟩
  rcases listing_cases t skip root with herror | ⟨L, hL, hnone⟩
  · exact Or.inl herror
  · obtain ⟨hsorted, hmem⟩ := listing_eq_ok ht hL
    exact Or.inr ⟨L, hL, isListing_of_pairwise ht hsorted hmem, hnone⟩

/-- A project with a build directory that cannot be read. -/
def shutBuild : FileTree :=
  .dir (.ofList [("src-gen", .file), ("build", .shut (.os Errno.denied)),
    ("src", .dir (.ofList [("main.rs", .file), ("lib", .link)]))])

/-- The exclusion of what is called `build`. -/
def hidesBuild : Exclusion := fun names => names.getLast? = some "build"

/-- The build directory is excluded, so the others are listed, what is in `src` before `src-gen`. -/
theorem shut_build_listed :
    shutBuild.listing hidesBuild ⟨"."⟩ = .ok [⟨["src"], .dir⟩, ⟨["src", "lib"], .link⟩,
      ⟨["src", "main.rs"], .file⟩, ⟨["src-gen"], .file⟩] ∧
    (∀ L, shutBuild.listing hidesBuild ⟨"."⟩ = .ok L → shutBuild.IsListing hidesBuild L) ∧
    ∀ t', shutBuild.Reordered t' → (t'.listing hidesBuild ⟨"."⟩).toOption =
      (shutBuild.listing hidesBuild ⟨"."⟩).toOption := by
  have ht : shutBuild.WellFormed := by
    simp only [shutBuild, Folder.ofList, List.foldr, WellFormed, Folder.WellFormed, Folder.names]
    decide
  obtain ⟨hlisted, hreordered⟩ := listing_complete ht hidesBuild ⟨"."⟩
  refine ⟨by decide +kernel, fun L hL => ?_, hreordered⟩
  rcases hlisted with ⟨x, hx, -⟩ | ⟨L', hL', hlisting, -⟩
  · rw [hx] at hL
    cases hL
  · rw [hL'] at hL
    exact Except.ok.inj hL ▸ hlisting

end FileTree

end CodeIndex

import CodeIndex.Proofs.FileSystem.Directories
import CodeIndex.Proofs.FileSystem.Straight
import CodeIndex.Proofs.Path.Ancestors

/-!
# Down to a place

The path of a place leads to that place if no link is on the way. Making the directories of such a
path goes down from the deepest one that is there, link or not, and adds one below the other.

* `LinkFree`, `Clear` : no link on the way to a place, or none that leads to a directory;
* `Dug` : what has been added, and where it begins;
* `createDirs_ofNames` : making directories either changes nothing or digs;
* `Clear.createDirs` : where no link leads astray, only what is above the place is added.
-/

namespace CodeIndex.FileSystem

variable {fs gs : FileSystem} {follow : Bool} {cwd p q R D : Place} {path : Path} {r : Found}
  {oe : Option Errno}

theorem isDir_iff : fs.isDir cwd path = true ↔
    ∃ p m, fs.lookup cwd path true = .ok (.entry p (.dir m)) := by
  simp only [← stat_eq_ok_iff]
  unfold isDir entry?
  cases h : fs.stat cwd path true with
  | error e => simp
  | ok x => simp [Entry.isDir_iff, Prod.ext_iff]

/-! ## Lookups of the path of a place -/

theorem finds_of_lookup_ofNames (hp : PlainPlace p)
    (h : fs.lookup cwd (Path.ofNames p) follow = .ok r) :
    ∃ k ≤ maxLinks, fs.Finds follow k [] p r := by
  obtain ⟨-, -, k, hk, hf⟩ := lookup_eq_ok_iff.mp h
  rw [origin_ofNames] at hf
  by_cases hne : p = []
  · subst hne
    rw [steps_root] at hf
    cases hf with
    | current _ _ hf => exact ⟨k, hk, hf⟩
    | parent _ hdots => exact absurd hdots (by decide)
    | vacant _ hdot => exact absurd rfl hdot
    | unfollowed _ _ hdot => exact absurd rfl hdot
    | enter _ hdot => exact absurd rfl hdot
    | link _ _ hdot => exact absurd rfl hdot
  · rw [steps_ofNames hne hp] at hf
    exact ⟨k, hk, hf⟩

theorem lookup_ofNames {k : Nat} (hp : PlainPlace p)
    (hlen : (Path.ofNames p).text.utf8ByteSize ≤ maxPath) (hk : k ≤ maxLinks)
    (hf : fs.Finds follow k [] p r) : fs.lookup cwd (Path.ofNames p) follow = .ok r := by
  refine lookup_eq_ok_iff.mpr ⟨Path.ofNames_text_ne_empty p, hlen, k, hk, ?_⟩
  rw [origin_ofNames]
  by_cases hne : p = []
  · subst hne
    rw [steps_root]
    exact .current isDirAt_root rfl hf
  · rwa [steps_ofNames hne hp]

/-- A path that leads to a directory has found each of its names below the directory that comes
before it. -/
theorem get?_ne_none_of_lookup_ofNames {n : String} {ns D' : Place} {m m' : Nat}
    (hp : PlainPlace (p ++ n :: ns))
    (hD : fs.lookup cwd (Path.ofNames p) true = .ok (.entry D (.dir m)))
    (hD' : fs.lookup cwd (Path.ofNames (p ++ n :: ns)) true = .ok (.entry D' (.dir m'))) :
    fs.get? (D ++ [n]) ≠ none := by
  obtain ⟨hplain, hrest⟩ := plainPlace_append.mp hp
  obtain ⟨k, -, hwalk⟩ := finds_of_lookup_ofNames hp hD'
  obtain ⟨k₁, k₂, q, m₁, rfl, hto, hfrom⟩ := hwalk.split (List.cons_ne_nil n ns)
  obtain ⟨k₀, -, hthere⟩ := finds_of_lookup_ofNames hplain hD
  obtain ⟨rfl, -⟩ := Found.entry.inj (hto.unique hthere).2
  exact hfrom.get?_ne_none (plainPlace_cons.mp hrest).1

theorem lookup_ofNames_length (h : fs.lookup cwd (Path.ofNames p) follow = .ok r) :
    (Path.ofNames p).text.utf8ByteSize ≤ maxPath := (lookup_eq_ok_iff.mp h).2.1

theorem utf8ByteSize_ofNames_le (h : q <+: p) :
    (Path.ofNames q).text.utf8ByteSize ≤ (Path.ofNames p).text.utf8ByteSize := by
  simp only [Path.ofNames, String.utf8ByteSize_append]
  exact Nat.add_le_add_left (Text.utf8ByteSize_joinWith_le h.sublist) _

/-! ## Links on the way to a place -/

/-- No link stands on the way to a place or at it. -/
def LinkFree (fs : FileSystem) (R : Place) : Prop :=
  ∀ q t, q <+: R → fs.get? q ≠ some (.link t)

/-- No link that stands on the way to a place or at it leads to a directory. -/
def Clear (fs : FileSystem) (R : Place) : Prop :=
  ∀ q t, q <+: R → fs.get? q = some (.link t) → fs.isDir [] (Path.ofNames q) = false

theorem LinkFree.clear (h : fs.LinkFree R) : fs.Clear R :=
  fun q t hq ht => absurd ht (h q t hq)

theorem LinkFree.of_prefix (h : fs.LinkFree R) (hp : p <+: R) : fs.LinkFree p :=
  fun q t hq => h q t (hq.trans hp)

theorem Clear.of_prefix (h : fs.Clear R) (hp : p <+: R) : fs.Clear p :=
  fun q t hq => h q t (hq.trans hp)

theorem isLink_of_isDirAt {e : Entry} (hp : fs.isDirAt p = true) (he : fs.get? p = some e) :
    e.isLink = false := by
  obtain ⟨m, hm⟩ := isDirAt_iff.mp hp
  obtain rfl := Option.some.inj (hm.symm.trans he)
  rfl

/-- Down to an entry that is no link there is none. -/
theorem WellFormed.linkFree {e : Entry} (hw : fs.WellFormed) (he : fs.get? R = some e)
    (hl : e.isLink = false) : fs.LinkFree R := by
  rintro q t ⟨rest, rfl⟩ ht
  by_cases hnil : rest = []
  · subst hnil
    rw [List.append_nil] at he
    obtain rfl := Option.some.inj (he.symm.trans ht)
    cases hl
  · have hdir := hw.isDirAt_of_append hnil he
    have hlink := isLink_of_isDirAt hdir ht
    cases hlink

theorem LinkFree.place_eq (h : fs.LinkFree p) (hp : PlainPlace p)
    (hl : fs.lookup cwd (Path.ofNames p) follow = .ok r) : r.place = p := by
  obtain ⟨k, -, hf⟩ := finds_of_lookup_ofNames hp hl
  exact (hf.place_eq hp fun q t hq _ => h q t hq).1

/-- On the way of a path that leads to a directory there is no link, if none leads to one. -/
theorem Clear.linkFree {m : Nat} (h : fs.Clear p) (hp : PlainPlace p)
    (hl : fs.lookup cwd (Path.ofNames p) true = .ok (.entry D (.dir m))) : fs.LinkFree p := by
  intro q t hq ht
  obtain ⟨k, hk, hf⟩ := finds_of_lookup_ofNames hp hl
  have hlen : (Path.ofNames q).text.utf8ByteSize ≤ maxPath :=
    Nat.le_trans (utf8ByteSize_ofNames_le hq) (lookup_ofNames_length hl)
  obtain ⟨rest, rfl⟩ := hq
  rw [plainPlace_append] at hp
  have hdir : ∃ k' ≤ maxLinks, ∃ D' m', fs.Finds true k' [] q (.entry D' (.dir m')) := by
    by_cases hrest : rest = []
    · subst hrest
      rw [List.append_nil] at hf
      exact ⟨k, hk, D, m, hf⟩
    · obtain ⟨k₁, k₂, D', m', rfl, h₁, -⟩ := hf.split hrest
      exact ⟨k₁, by omega, D', m', h₁⟩
  obtain ⟨k', hk', D', m', hf'⟩ := hdir
  have htrue : fs.isDir [] (Path.ofNames q) = true :=
    isDir_iff.mpr ⟨D', m', lookup_ofNames hp.1 hlen hk' hf'⟩
  rw [h q t (List.prefix_append q rest) ht] at htrue
  cases htrue

/-! ## Digging -/

theorem withoutEndSlashes_ofNames (hp : PlainPlace p) :
    withoutEndSlashes (Path.ofNames p) = Path.ofNames p := by
  by_cases hne : p = []
  · subst hne
    decide
  · exact withoutEndSlashes_eq (Path.getLast?_ofNames hne hp)

/-- Directories have been made, one below the other, from the free place `F` that the path of `p`
led to down to where the path of `p ++ u` leads now. -/
structure Dug (fs gs : FileSystem) (cwd p u F : Place) : Prop where
  vacant : fs.lookup cwd (Path.ofNames p) false = .ok (.vacant F)
  reached : ∃ m, gs.lookup cwd (Path.ofNames (p ++ u)) true = .ok (.entry (F ++ u) (.dir m))
  changed : ∀ q, gs.get? q ≠ fs.get? q → F <+: q ∧ q <+: F ++ u

/-- Making a directory at a free place digs there. -/
theorem dug_of_createDir (hp : PlainPlace p)
    (h : fs.createDir cwd (Path.ofNames p) dirMode = .ok gs) : ∃ F, Dug fs gs cwd p [] F := by
  obtain ⟨d, n, hl, -, -, -, rfl⟩ := createDir_eq_ok h
  rw [withoutEndSlashes_ofNames hp] at hl
  refine ⟨d ++ [n], hl, ⟨dirMode, ?_⟩, fun q hq => ?_⟩
  · rw [List.append_nil, List.append_nil]
    exact lookup_put hl rfl
  · have hqeq : q = d ++ [n] := by
      by_contra hne
      rw [get?_put (by simp), if_neg hne] at hq
      exact hq rfl
    simp [hqeq]

/-- Below a directory that has been dug there is nothing. -/
theorem Dug.get?_append_eq_none {u F : Place} {ns : List String} (hw : fs.WellFormed)
    (h : Dug fs gs cwd p u F) (hne : ns ≠ []) : gs.get? (F ++ u ++ ns) = none := by
  have hsame : gs.get? (F ++ u ++ ns) = fs.get? (F ++ u ++ ns) := by
    by_contra hchanged
    have hlen := (h.changed _ hchanged).2.length_le
    have hpos : 0 < ns.length := List.length_pos_iff.mpr hne
    rw [List.length_append] at hlen
    omega
  have hdir : fs.isDirAt F = false := by
    obtain ⟨d, n, -, -, -, hv⟩ := vacant_of_lookup h.vacant
    rw [isDirAt, hv]
    rfl
  rw [hsame, List.append_assoc]
  exact hw.get?_append_eq_none (by simp [hne]) hdir

/-- Making one more directory below those that were dug. -/
theorem Dug.deeper {hs : FileSystem} {u F : Place} {n : String} (hw : fs.WellFormed)
    (h : Dug fs hs cwd p u F) (hp : PlainPlace (p ++ u)) (hn : PlainName n)
    (hens : hs.ensureDir cwd (Path.ofNames (p ++ u ++ [n])) = .ok gs) :
    Dug fs gs cwd p (u ++ [n]) F := by
  have hpn : PlainPlace (p ++ u ++ [n]) := by
    rw [plainPlace_append]
    exact ⟨hp, by simpa using hn⟩
  obtain ⟨m, hreached⟩ := h.reached
  have hempty : hs.get? (F ++ u ++ [n]) = none := h.get?_append_eq_none hw (List.cons_ne_nil n [])
  have hwalk : ∀ {follow : Bool} {r : Found},
      hs.lookup cwd (Path.ofNames (p ++ u ++ [n])) follow = .ok r → r = .vacant (F ++ u ++ [n]) := by
    intro follow r hr
    obtain ⟨k, -, hf⟩ := finds_of_lookup_ofNames hpn hr
    obtain ⟨k₁, k₂, D', m', rfl, h₁, h₂⟩ := hf.split (List.cons_ne_nil n [])
    obtain ⟨k₀, -, h₀⟩ := finds_of_lookup_ofNames hp hreached
    obtain ⟨-, hD⟩ := h₁.unique h₀
    rw [Found.entry.injEq] at hD
    obtain ⟨rfl, -⟩ := hD
    cases h₂ with
    | current _ hdot => exact absurd hdot hn.ne_dot
    | parent _ hdots => exact absurd hdots hn.ne_dotDot
    | vacant => rfl
    | unfollowed _ _ _ _ _ ht => rw [hempty] at ht; cases ht
    | enter _ _ _ _ he => rw [hempty] at he; cases he
    | link _ _ _ _ _ ht => rw [hempty] at ht; cases ht
  rcases ensureDir_eq_ok hens with hc | ⟨hdir, -⟩
  · obtain ⟨d, n', hl, -, -, -, rfl⟩ := createDir_eq_ok hc
    rw [withoutEndSlashes_ofNames hpn] at hl
    have hplace := hwalk hl
    rw [hplace] at hl
    rw [Found.vacant.injEq] at hplace
    rw [hplace]
    refine ⟨h.vacant, ⟨dirMode, ?_⟩, fun q hq => ?_⟩
    · rw [← List.append_assoc, ← List.append_assoc]
      exact lookup_put hl rfl
    · rw [get?_put (by simp)] at hq
      by_cases hqeq : q = F ++ u ++ [n]
      · rw [hqeq, ← List.append_assoc]
        exact ⟨⟨u ++ [n], by simp⟩, List.prefix_refl _⟩
      · rw [if_neg hqeq] at hq
        obtain ⟨hF, hq⟩ := h.changed q hq
        exact ⟨hF, hq.trans ⟨[n], by simp⟩⟩
  · obtain ⟨D', m', hl⟩ := isDir_iff.mp hdir
    cases hwalk hl

theorem lookup_root (fs : FileSystem) (cwd : Place) (follow : Bool) :
    fs.lookup cwd (Path.ofNames []) follow = .ok (.entry [] (.dir dirMode)) :=
  lookup_ofNames plainPlace_nil (by decide) (Nat.zero_le _) (.here rfl)

@[simp] theorem isDir_root (fs : FileSystem) (cwd : Place) :
    fs.isDir cwd (Path.ofNames []) = true := isDir_iff.mpr ⟨_, _, lookup_root fs cwd true⟩

theorem createDirs_root (fs : FileSystem) (cwd : Place) :
    fs.createDirs cwd (Path.ofNames []) = (fs, none) := by
  have hens : fs.ensureDir cwd (Path.ofNames []) = .ok fs := by
    rw [ensureDir, createDir, withoutEndSlashes_ofNames plainPlace_nil, lookup_root]
    simp
  rw [createDirs, Path.ancestors_root, createDirsOf, hens]
  simp [Path.ofNames_text_ne_empty]

/-- A directory is made, or else those above it, if one of them is missing, and then this one. -/
theorem createDirs_name {n : String} (hR : PlainPlace R) (hn : PlainName n) :
    fs.createDirs cwd (Path.ofNames (R ++ [n])) =
      match fs.ensureDir cwd (Path.ofNames (R ++ [n])) with
      | .ok gs => (gs, none)
      | .error e =>
        if e = .noEntry then
          match fs.createDirs cwd (Path.ofNames R) with
          | (hs, some e) => (hs, some e)
          | (hs, none) =>
            match hs.ensureDir cwd (Path.ofNames (R ++ [n])) with
            | .ok gs => (gs, none)
            | .error e => (hs, some e)
        else (fs, some e) := by
  rw [createDirs, Path.ancestors_ofNames hR hn, createDirsOf,
    if_neg (by simpa using Path.ofNames_text_ne_empty (R ++ [n]))]
  rfl

/-- Making the directories of the path of a place changes nothing or digs. -/
theorem createDirs_ofNames (hw : fs.WellFormed) (hR : PlainPlace R)
    (h : fs.createDirs cwd (Path.ofNames R) = (gs, oe)) :
    (gs = fs ∧ (oe = none → fs.isDir cwd (Path.ofNames R) = true)) ∨
      ∃ p u F, p ++ u <+: R ∧ Dug fs gs cwd p u F ∧ (oe = none → p ++ u = R) := by
  induction R using List.reverseRecOn generalizing gs oe with
  | nil =>
    rw [createDirs_root] at h
    obtain ⟨rfl, rfl⟩ := Prod.mk.inj h
    exact Or.inl ⟨rfl, fun _ => isDir_root fs cwd⟩
  | append_singleton R n ih =>
    have hpn : PlainPlace R ∧ PlainName n := by simpa using hR
    rw [createDirs_name hpn.1 hpn.2] at h
    split at h
    · next hens =>
      obtain ⟨rfl, rfl⟩ := Prod.mk.inj h
      rcases ensureDir_eq_ok hens with hc | ⟨hdir, rfl⟩
      · obtain ⟨F, hdug⟩ := dug_of_createDir hR hc
        exact Or.inr ⟨R ++ [n], [], F, by simp, hdug, fun _ => List.append_nil _⟩
      · exact Or.inl ⟨rfl, fun _ => hdir⟩
    · next e hens =>
      split at h
      · -- Something above is missing: first the directories above are made, then this one.
        split at h
        · next hs e' hrec =>
          obtain ⟨rfl, rfl⟩ := Prod.mk.inj h
          rcases ih hpn.1 hrec with ⟨rfl, -⟩ | ⟨p, u, F, hpu, hdug, -⟩
          · exact Or.inl ⟨rfl, fun hnone => by cases hnone⟩
          · exact Or.inr ⟨p, u, F, hpu.trans (List.prefix_append R [n]), hdug,
              fun hnone => by cases hnone⟩
        · next hs hrec =>
          rcases ih hpn.1 hrec with ⟨rfl, -⟩ | ⟨p, u, F, -, hdug, hpu⟩
          · rw [hens] at h
            obtain ⟨rfl, rfl⟩ := Prod.mk.inj h
            exact Or.inl ⟨rfl, fun hnone => by cases hnone⟩
          · obtain rfl := hpu rfl
            split at h
            · next hens' =>
              obtain ⟨rfl, rfl⟩ := Prod.mk.inj h
              have hdeeper := hdug.deeper hw hpn.1 hpn.2 hens'
              exact Or.inr ⟨p, u ++ [n], F, by simp, hdeeper, fun _ => by simp⟩
            · obtain ⟨rfl, rfl⟩ := Prod.mk.inj h
              exact Or.inr ⟨p, u, F, List.prefix_append _ [n], hdug, fun hnone => by cases hnone⟩
      · obtain ⟨rfl, rfl⟩ := Prod.mk.inj h
        exact Or.inl ⟨rfl, fun hnone => by cases hnone⟩

/-- Once its directories have been made, a path leads to the last of them. -/
theorem exists_lookup_of_createDirs (hw : fs.WellFormed) (hR : PlainPlace R)
    (h : fs.createDirs cwd (Path.ofNames R) = (gs, none)) :
    ∃ D m, gs.lookup cwd (Path.ofNames R) true = .ok (.entry D (.dir m)) := by
  rcases createDirs_ofNames hw hR h with ⟨rfl, hdir⟩ | ⟨p, u, F, -, hdug, hpu⟩
  · exact isDir_iff.mp (hdir rfl)
  · obtain ⟨m, hm⟩ := hdug.reached
    rw [hpu rfl] at hm
    exact ⟨F ++ u, m, hm⟩

/-! ## Digging where no link leads astray -/

/-- An entry that is not followed stands in the directory that the path above leads to. -/
theorem lookup_ofNames_name {n : String} (hp : PlainPlace p) (hn : PlainName n)
    (h : fs.lookup cwd (Path.ofNames (p ++ [n])) false = .ok r) :
    ∃ D m, fs.lookup cwd (Path.ofNames p) true = .ok (.entry D (.dir m)) ∧ r.place = D ++ [n] := by
  have hpn : PlainPlace (p ++ [n]) := by simpa using ⟨hp, hn⟩
  obtain ⟨k, hk, hf⟩ := finds_of_lookup_ofNames hpn h
  obtain ⟨k₁, k₂, D, m, rfl, h₁, h₂⟩ := hf.split (List.cons_ne_nil n [])
  have hlen : (Path.ofNames p).text.utf8ByteSize ≤ maxPath :=
    Nat.le_trans (utf8ByteSize_ofNames_le (List.prefix_append p [n])) (lookup_ofNames_length h)
  exact ⟨D, m, lookup_ofNames hp hlen (by omega) h₁, (h₂.place_eq_of_name hn).1⟩

theorem Clear.place_eq {n : String} (h : fs.Clear p) (hp : PlainPlace p) (hn : PlainName n)
    (hl : fs.lookup cwd (Path.ofNames (p ++ [n])) false = .ok r) : r.place = p ++ [n] := by
  obtain ⟨D, m, hD, hr⟩ := lookup_ofNames_name hp hn hl
  have hDp : D = p := (h.linkFree hp hD).place_eq hp hD
  rw [hr, hDp]

theorem Clear.isDirAt (h : fs.Clear p) (hp : PlainPlace p)
    (hl : fs.isDir cwd (Path.ofNames p) = true) : fs.isDirAt p = true := by
  obtain ⟨D, m, hD⟩ := isDir_iff.mp hl
  have hDp : D = p := (h.linkFree hp hD).place_eq hp hD
  exact isDirAt_iff.mpr ⟨m, hDp ▸ get?_of_lookup hD⟩

/-- Only what is above the place is added, and if all goes well it is a directory in the end. -/
theorem Clear.createDirs (h : fs.Clear R) (hw : fs.WellFormed) (hR : PlainPlace R)
    (hc : fs.createDirs cwd (Path.ofNames R) = (gs, oe)) :
    (∀ q, gs.get? q ≠ fs.get? q → q <+: R) ∧ (oe = none → gs.isDirAt R = true) := by
  rcases createDirs_ofNames hw hR hc with ⟨rfl, hdir⟩ | ⟨p, u, F, hpu, hdug, hnone⟩
  · exact ⟨fun q hq => absurd rfl hq, fun hnone => h.isDirAt hR (hdir hnone)⟩
  · have hplain : PlainPlace p := fun n hn => hR n (hpu.subset (List.mem_append_left u hn))
    have hpR : p <+: R := (List.prefix_append p u).trans hpu
    have hF : F = p := by
      rcases List.eq_nil_or_concat p with rfl | ⟨p', n, rfl⟩
      · have hvac := hdug.vacant
        rw [lookup_root] at hvac
        cases hvac
      · rw [List.concat_eq_append, plainPlace_append, plainPlace_cons] at hplain
        rw [List.concat_eq_append] at hpR hdug ⊢
        have hclear := h.of_prefix ((List.prefix_append p' [n]).trans hpR)
        exact hclear.place_eq hplain.1 hplain.2.1 hdug.vacant
    rw [hF] at hdug
    refine ⟨fun q hq => (hdug.changed q hq).2.trans hpu, fun hn => ?_⟩
    obtain ⟨m, hm⟩ := hdug.reached
    rw [hnone hn] at hm
    exact isDirAt_iff.mpr ⟨m, get?_of_lookup hm⟩

end CodeIndex.FileSystem

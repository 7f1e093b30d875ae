import CodeIndex.Proofs.Effect
import CodeIndex.Proofs.FileSystem.Descent
import CodeIndex.Proofs.FileSystem.Removing
import CodeIndex.WorkingCopy.Basic

/-!
# Places for copies

* `settledDestination_eq_ok` : a settled destination is the path of a place;
* `Cleared` : nothing stands any more where a path leads;
* `Host.placeBelow_cases` : what making a place below a destination comes to;
* `Ready` : a free place for a copy, and what has become of the rest;
* `Host.ready_of_placeBelow`, `Host.ready_of_createDir` : below a destination, whether it was there or
  not, and in a temporary directory, a place that has been made is ready.
-/

namespace CodeIndex

open FileSystem

variable {fs gs : FileSystem} {host : Host} {given source r path : Path} {name : String}
  {cwd : Place}

namespace FileSystem

/-! ## Settled destinations -/

theorem climb_plain : ∀ (fuel : Nat) (path : Path) (names : List String),
    PlainPlace names → PlainPlace (fs.climb cwd fuel path names).2
  | 0, _, _, h => h
  | fuel + 1, path, names, h => by
    rw [climb]
    split
    · exact h
    · split
      · next parent name _ hname =>
        exact climb_plain fuel parent (name :: names)
          (plainPlace_cons.mpr ⟨Path.plainName_of_fileName? hname, h⟩)
      · exact h

/-- A settled destination is the path of a place. -/
theorem settledDestination_eq_ok (hw : fs.WellFormed)
    (h : fs.settledDestination cwd given = .ok r) : ∃ R, PlainPlace R ∧ r = Path.ofNames R := by
  unfold settledDestination at h
  split at h
  · cases h
  · next path _ =>
    have hnames : PlainPlace (fs.climb cwd path.components.length path []).2 :=
      climb_plain path.components.length path [] plainPlace_nil
    dsimp only at h
    split at h
    · cases h
    · next place hplace =>
      obtain rfl := Except.ok.inj h
      obtain ⟨e, hlookup⟩ := canonical_eq_ok_iff.mp hplace
      have hplain : PlainPlace place := hw.plainPlace (get?_of_lookup hlookup)
      exact ⟨_, plainPlace_append.mpr ⟨hplain, hnames⟩, Path.foldl_child_ofNames hplain hnames⟩

/-! ## Clearing a place -/

/-- Nothing stands any more where a path leads, and nothing else is gone. -/
inductive Cleared (fs : FileSystem) (cwd : Place) (path : Path) : FileSystem → Prop
  | nothing : (∀ x, fs.stat cwd path false ≠ .ok x) → Cleared fs cwd path fs
  | removed {gs p e} : fs.stat cwd path false = .ok (p, e) → Removed fs gs p →
      Cleared fs cwd path gs

namespace Cleared

theorem wellFormed (h : Cleared fs cwd path gs) (hw : fs.WellFormed) : gs.WellFormed := by
  cases h with
  | nothing => exact hw
  | removed _ hgone => exact hgone.wellFormed

theorem get?_of_some (h : Cleared fs cwd path gs) {q : Place} {e : Entry}
    (he : gs.get? q = some e) : fs.get? q = some e := by
  cases h with
  | nothing => exact he
  | removed _ hgone => exact hgone.get?_of_some he

end Cleared

end FileSystem

namespace Host

theorem clear_cases (hw : fs.WellFormed) (host : Host) (path : Path)
    (hne : ∀ e, fs.stat host.cwd path false ≠ .ok ([], e)) :
    (∃ e, host.clear path fs = (.error e, fs)) ∨
      ∃ gs, host.clear path fs = (.ok (), gs) ∧ Cleared fs host.cwd path gs := by
  unfold clear
  cases hstat : fs.stat host.cwd path false with
  | error e =>
    exact Or.inr ⟨fs, by simp [Except.isOk, Except.toBool], .nothing fun x hx => by simp [hstat] at hx⟩
  | ok x =>
    obtain ⟨p, e⟩ := x
    simp only [Except.isOk, Except.toBool, if_true]
    cases hgone : fs.removeEntry host.cwd path with
    | error err => exact Or.inl ⟨_, by rw [Effect.change, hgone]⟩
    | ok gs =>
      obtain ⟨p', e', hstat', hremoved⟩ := removeEntry_eq_ok hw hgone
      have hp : p' ≠ [] := by
        rintro rfl
        exact hne e' hstat'
      exact Or.inr ⟨gs, by rw [Effect.change, hgone], .removed hstat' (hremoved hp)⟩

/-! ## A place below a destination -/

/-- What making a place below a destination comes to: nothing has happened, or the way was cleared
and the directories down to the destination were made, as far as that goes. -/
theorem placeBelow_cases (hw : fs.WellFormed) (hname : PlainName name) (host : Host)
    (given source : Path) :
    (∃ e, host.placeBelow given source name fs = (.error e, fs)) ∨
    ∃ R gs, fs.settledDestination host.cwd given = .ok (Path.ofNames R) ∧ PlainPlace R ∧
      overlaps (Path.ofNames (R ++ [name])) source = false ∧
      Cleared fs host.cwd (Path.ofNames (R ++ [name])) gs ∧
      ((∃ e, host.placeBelow given source name fs =
          (.error e, (gs.createDirs host.cwd (Path.ofNames R)).1)) ∨
        (gs.createDirs host.cwd (Path.ofNames R)).2 = none ∧
        host.placeBelow given source name fs =
          (.ok ⟨Path.ofNames (R ++ [name]), .chosen (Path.ofNames R)⟩,
            (gs.createDirs host.cwd (Path.ofNames R)).1)) := by
  unfold placeBelow
  rw [Effect.bind_apply, Effect.examine]
  cases hsettled : fs.settledDestination host.cwd given with
  | error e => exact Or.inl ⟨e, rfl⟩
  | ok r =>
    obtain ⟨R, hR, rfl⟩ := settledDestination_eq_ok hw hsettled
    dsimp only
    rw [Path.child_ofNames hR hname]
    cases hover : overlaps (Path.ofNames (R ++ [name])) source with
    | true => exact Or.inl ⟨_, rfl⟩
    | false =>
      have hne : ∀ e, fs.stat host.cwd (Path.ofNames (R ++ [name])) false ≠ .ok ([], e) := by
        intro e he
        obtain ⟨D, m, -, hplace⟩ := lookup_ofNames_name hR hname (stat_eq_ok_iff.mp he)
        simp [Found.place] at hplace
      rw [if_neg (by simp), Effect.bind_apply]
      rcases clear_cases hw host (Path.ofNames (R ++ [name])) hne with ⟨e, he⟩ | ⟨gs, hgs, hcleared⟩
      · exact Or.inl ⟨e, by rw [he]⟩
      · refine Or.inr ⟨R, gs, rfl, hR, hover, hcleared, ?_⟩
        rw [hgs]
        dsimp only
        rw [Effect.bind_apply, Effect.attempt]
        rcases gs.createDirs host.cwd (Path.ofNames R) with ⟨hs, _ | e⟩
        · exact Or.inr ⟨rfl, rfl⟩
        · exact Or.inl ⟨_, rfl⟩

/-! ## What a place that has been made is like -/

end Host

namespace FileSystem

/-- Entries have gone, and directories have come. -/
def Swept (fs gs : FileSystem) : Prop :=
  ∀ q e, gs.get? q = some e → fs.get? q = some e ∨ e.isDir = true

theorem Swept.trans {hs : FileSystem} (h : Swept fs gs) (h' : Swept gs hs) : Swept fs hs := by
  intro q e he
  rcases h' q e he with he | hd
  · exact h q e he
  · exact Or.inr hd

theorem DirsAdded.swept (h : DirsAdded fs gs) : Swept fs gs := by
  intro q e he
  rcases h.get?_eq_or q with hq | ⟨-, hq⟩
  · exact Or.inl (by rw [← hq, he])
  · rw [hq] at he
    cases he
    exact Or.inr rfl

/-- What stands at a place and below it is as before. -/
def SameBelow (fs gs : FileSystem) (S : Place) : Prop := ∀ q, S <+: q → gs.get? q = fs.get? q

/-- There is a free place for a copy. What is outside of it and still there is as before. -/
structure Ready (fs gs : FileSystem) (cwd : Place) (path : Path) (W : Place) : Prop where
  wellFormed : gs.WellFormed
  noEndSlash : withoutEndSlashes path = path
  free : gs.Free cwd path W
  swept : Swept fs gs
  sameBelow : ∀ S, gs.isDirAt S = true → ¬ S <+: W → SameBelow fs gs S

/-- A name below the directory that a path leads to. -/
theorem lookup_ofNames_concat {D R : Place} {m : Nat} {found : Found} (hR : PlainPlace R)
    (hname : PlainName name)
    (hD : fs.lookup cwd (Path.ofNames R) true = .ok (.entry D (.dir m)))
    (hlen : (Path.ofNames (R ++ [name])).text.utf8ByteSize ≤ maxPath)
    (hf : fs.Finds false 0 D [name] found) :
    fs.lookup cwd (Path.ofNames (R ++ [name])) false = .ok found := by
  obtain ⟨k, hk, hwalk⟩ := finds_of_lookup_ofNames hR hD
  have hplain : PlainPlace (R ++ [name]) := by simpa using ⟨hR, hname⟩
  exact lookup_ofNames hplain hlen (k := k + 0) hk (hwalk.append hf (List.cons_ne_nil name []))

/-- A name below a directory is free for a copy if nothing has it. -/
theorem free_child {D R : Place} {m : Nat} (hR : PlainPlace R) (hname : IsName name)
    (hD : fs.lookup cwd (Path.ofNames R) true = .ok (.entry D (.dir m)))
    (hv : (Path.ofNames (R ++ [name])).text.utf8ByteSize ≤ maxPath → fs.get? (D ++ [name]) = none) :
    fs.Free cwd (Path.ofNames (R ++ [name])) (D ++ [name]) := by
  by_cases hlen : (Path.ofNames (R ++ [name])).text.utf8ByteSize ≤ maxPath
  · have hd : fs.isDirAt D = true := isDirAt_iff.mpr ⟨m, get?_of_lookup hD⟩
    exact Or.inl (lookup_ofNames_concat hR hname.toPlainName hD hlen (finds_vacant hd hname (hv hlen)))
  · exact Or.inr (Nat.lt_of_not_le hlen)

/-- What was cleared stood below the directory that the destination leads to. -/
theorem Cleared.removed_place {D R p : Place} {m : Nat} {e : Entry} (hR : PlainPlace R)
    (hname : PlainName name) (hstat : fs.stat cwd (Path.ofNames (R ++ [name])) false = .ok (p, e))
    (hD : fs.lookup cwd (Path.ofNames R) true = .ok (.entry D (.dir m))) : p = D ++ [name] := by
  obtain ⟨D', m', hD', hp⟩ := lookup_ofNames_name hR hname (stat_eq_ok_iff.mp hstat)
  have heq : Found.entry D' (.dir m') = .entry D (.dir m) := Except.ok.inj (hD'.symm.trans hD)
  rw [Found.entry.injEq] at heq
  rw [← heq.1]
  exact hp

/-- What was dug again had been cleared before. -/
theorem Dug.exists_of_cleared {D p u F : Place} {m : Nat} {hs : FileSystem}
    (hp : PlainPlace (p ++ u)) (hsub : ∀ q x, fs.get? q = some x → hs.get? q = some x)
    (hdug : Dug fs gs cwd p u F)
    (hD : hs.lookup cwd (Path.ofNames (p ++ u)) true = .ok (.entry D (.dir m))) :
    hs.get? F ≠ none := by
  rcases List.eq_nil_or_concat p with rfl | ⟨p', n, rfl⟩
  · have hvac := hdug.vacant
    rw [lookup_root] at hvac
    cases hvac
  · rw [List.concat_eq_append] at hdug hD hp
    rw [List.append_assoc, List.singleton_append] at hD hp
    obtain ⟨hp', hrest⟩ := plainPlace_append.mp hp
    obtain ⟨D₁, m₁, hD₁, hF⟩ := lookup_ofNames_name hp' (plainPlace_cons.mp hrest).1 hdug.vacant
    obtain rfl : F = D₁ ++ [n] := hF
    exact get?_ne_none_of_lookup_ofNames hp (lookup_mono hsub hD₁) hD

/-- Below a destination that was there, a place is ready once it is cleared. -/
theorem Cleared.ready {D R : Place} {m : Nat} (hw : fs.WellFormed) (hR : PlainPlace R)
    (hname : IsName name) (hcleared : Cleared fs cwd (Path.ofNames (R ++ [name])) gs)
    (hD : gs.lookup cwd (Path.ofNames R) true = .ok (.entry D (.dir m))) :
    Ready fs gs cwd (Path.ofNames (R ++ [name])) (D ++ [name]) := by
  have hplain := hname.toPlainName
  have hRname : PlainPlace (R ++ [name]) := by simpa using ⟨hR, hplain⟩
  -- What was cleared was below the destination as well.
  have hgone : ∀ p e, fs.stat cwd (Path.ofNames (R ++ [name])) false = .ok (p, e) →
      p = D ++ [name] := fun p e hstat =>
    Cleared.removed_place hR hplain hstat (lookup_mono (fun q x => hcleared.get?_of_some) hD)
  refine ⟨hcleared.wellFormed hw, withoutEndSlashes_ofNames hRname,
    free_child hR hname hD fun hlen => ?_, fun q e he => Or.inl (hcleared.get?_of_some he),
    fun S hS hSW q hq => ?_⟩
  · cases hcleared with
    | nothing hstat =>
      by_contra hsome
      obtain ⟨e, he⟩ := Option.ne_none_iff_exists'.mp hsome
      have hd : fs.isDirAt D = true := isDirAt_iff.mpr ⟨m, get?_of_lookup hD⟩
      have hlook := lookup_ofNames_concat hR hplain hD hlen (finds_entry hd hname he (Or.inl rfl))
      exact hstat _ (stat_eq_ok_iff.mpr hlook)
    | removed hstat hremoved =>
      rw [hremoved.get?_eq, hgone _ _ hstat, if_pos (List.prefix_refl _)]
  · cases hcleared with
    | nothing => rfl
    | removed hstat hremoved =>
      rw [hremoved.get?_eq, if_neg]
      rw [hgone _ _ hstat]
      intro hWq
      rcases List.prefix_or_prefix_of_prefix hq hWq with hpre | hpre
      · exact hSW hpre
      · rw [isDirAt, hremoved.get?_eq, hgone _ _ hstat, if_pos hpre] at hS
        cases hS

/-- Where the directories down to a destination were dug, a place below it is ready. The digging
began where something had been cleared, or elsewhere. -/
theorem Dug.ready {hs : FileSystem} {p u F : Place} (hw : fs.WellFormed) (hR : PlainPlace (p ++ u))
    (hname : IsName name) (hcleared : Cleared fs cwd (Path.ofNames (p ++ u ++ [name])) gs)
    (hwh : hs.WellFormed) (hadded : DirsAdded gs hs) (hdug : Dug gs hs cwd p u F) :
    Ready fs hs cwd (Path.ofNames (p ++ u ++ [name])) (F ++ u ++ [name]) := by
  have hplain := hname.toPlainName
  have hRname : PlainPlace (p ++ u ++ [name]) :=
    plainPlace_append.mpr ⟨hR, by simpa using hplain⟩
  obtain ⟨m, hD⟩ := hdug.reached
  refine ⟨hwh, withoutEndSlashes_ofNames hRname, free_child hR hname hD fun _ =>
    hdug.get?_append_eq_none (hcleared.wellFormed hw) (List.cons_ne_nil name []),
    Swept.trans (fun q e he => Or.inl (hcleared.get?_of_some he)) hadded.swept,
    fun S hS hSW q hq => ?_⟩
  have hsame : ∀ q, S <+: q → hs.get? q = gs.get? q := by
    intro q hq
    by_contra hchanged
    exact hSW ((hq.trans (hdug.changed q hchanged).2).trans (List.prefix_append _ _))
  rw [hsame q hq]
  cases hcleared with
  | nothing => rfl
  | @removed _ p₀ e hstat hremoved =>
    rw [hremoved.get?_eq, if_neg]
    intro hpq
    obtain ⟨D₀, m₀, hD₀, -⟩ := lookup_ofNames_name hR hplain (stat_eq_ok_iff.mp hstat)
    have hF : p₀ <+: F := by
      have hthere := hdug.exists_of_cleared hR (fun q x => hremoved.get?_of_some) hD₀
      have hfree : gs.get? F = none := by
        obtain ⟨d, n, -, -, -, hv⟩ := vacant_of_lookup hdug.vacant
        exact hv
      rw [hremoved.get?_eq] at hfree
      by_contra hnot
      rw [if_neg hnot] at hfree
      exact hthere hfree
    rcases List.prefix_or_prefix_of_prefix hq hpq with hpre | hpre
    · exact hSW (((hpre.trans hF).trans (List.prefix_append F u)).trans (List.prefix_append _ _))
    · rw [isDirAt, hsame S (List.prefix_refl S), hremoved.get?_eq, if_pos hpre] at hS
      cases hS

end FileSystem

namespace Host

/-- A place that has been made below a destination is ready for a copy. -/
theorem ready_of_placeBelow {copy : WorkingCopy} (hw : fs.WellFormed) (hname : IsName name)
    (h : host.placeBelow given source name fs = (.ok copy, gs)) :
    ∃ W, Ready fs gs host.cwd copy.path W := by
  rcases placeBelow_cases hw hname.toPlainName host given source with ⟨e, he⟩ |
    ⟨R, fs₁, -, hR, -, hcleared, ⟨e, he⟩ | ⟨hnone, hok⟩⟩
  · rw [he] at h
    cases h
  · rw [he] at h
    cases h
  rw [hok] at h
  obtain ⟨hcopy, rfl⟩ := Prod.mk.inj h
  obtain rfl := Except.ok.inj hcopy
  dsimp only
  have hw₁ := hcleared.wellFormed hw
  have hadded := dirsAdded_createDirs fs₁ host.cwd (Path.ofNames R)
  have hwg := hw₁.createDirs host.cwd (Path.ofNames R)
  have hmade : fs₁.createDirs host.cwd (Path.ofNames R) =
      ((fs₁.createDirs host.cwd (Path.ofNames R)).1, none) := by rw [← hnone]
  rcases createDirs_ofNames hw₁ hR hmade with ⟨hsame, hdir⟩ | ⟨p, u, F, -, hdug, hpu⟩
  · obtain ⟨D, m, hD⟩ := isDir_iff.mp (hdir rfl)
    rw [hsame]
    exact ⟨D ++ [name], hcleared.ready hw hR hname hD⟩
  · obtain rfl := hpu rfl
    exact ⟨F ++ u ++ [name], hdug.ready hw hR hname hcleared hwg hadded⟩

/-! ## A temporary place -/

theorem makeTempDir_eq_ok {start : String} {draws draw : Nat} {root : Path}
    (h : host.makeTempDir start draws draw fs = (.ok root, gs)) :
    fs.createDir host.cwd root 0o700 = .ok gs := by
  induction draws generalizing draw with
  | zero =>
    unfold makeTempDir at h
    cases h
  | succ draws ih =>
    unfold makeTempDir at h
    dsimp only at h
    cases hmade : fs.createDir host.cwd (host.tempPath start draw) 0o700 with
    | ok hs =>
      rw [hmade] at h
      obtain ⟨hroot, rfl⟩ := Prod.mk.inj h
      rw [← Except.ok.inj hroot, hmade]
    | error e =>
      rw [hmade] at h
      dsimp only at h
      split at h
      · exact ih h
      · cases h

theorem makeTempDir_eq_error {start : String} {draws draw : Nat} {e : CopyError}
    (h : host.makeTempDir start draws draw fs = (.error e, gs)) : gs = fs := by
  induction draws generalizing draw with
  | zero =>
    unfold makeTempDir at h
    exact (Prod.mk.inj h).2.symm
  | succ draws ih =>
    unfold makeTempDir at h
    dsimp only at h
    cases hmade : fs.createDir host.cwd (host.tempPath start draw) 0o700 with
    | ok hs =>
      rw [hmade] at h
      cases h
    | error err =>
      rw [hmade] at h
      dsimp only at h
      split at h
      · exact ih h
      · exact (Prod.mk.inj h).2.symm

/-- A temporary directory that has been made is ready for a copy. -/
theorem ready_of_createDir {root : Path} (hw : fs.WellFormed) (hname : IsName name)
    (h : fs.createDir host.cwd root 0o700 = .ok gs) :
    ∃ F, Ready fs gs host.cwd (root.child name) (F ++ [name]) ∧ fs.get? F = none ∧
      (fs.lookup host.cwd (withoutEndSlashes root) false = .ok (.vacant F)) ∧
      gs = fs.put F (.dir 0o700) := by
  obtain ⟨d, n, hl, hd, hn, hv, rfl⟩ := createDir_eq_ok h
  have hroot : root.text ≠ "" := by
    intro hempty
    have hne := (lookup_eq_ok_iff.mp hl).1
    rw [show root = ⟨""⟩ from congrArg Path.mk hempty] at hne
    exact hne (by decide)
  have hdir : fs.isDirAt (d ++ [n]) = false := by rw [isDirAt, hv]; rfl
  have hbelow : (fs.put (d ++ [n]) (.dir 0o700)).get? (d ++ [n] ++ [name]) = none := by
    rw [get?_put (by simp), if_neg (by simp)]
    exact hw.get?_append_eq_none (List.cons_ne_nil name []) hdir
  have hfree : (fs.put (d ++ [n]) (.dir 0o700)).Free host.cwd (root.child name)
      (d ++ [n] ++ [name]) := by
    by_cases hlen : (root.child name).text.utf8ByteSize ≤ maxPath
    · have hshort : root.text.utf8ByteSize ≤ maxPath :=
        Nat.le_trans (utf8ByteSize_le_join hroot (isAbsolute_name hname.toPlainName)) hlen
      have hput := lookup_put (e := .dir 0o700) hl rfl
      have hled := lookup_of_withoutEndSlashes hput hroot hshort
      exact Or.inl (lookup_child hled hname hbelow hlen)
    · exact Or.inr (Nat.lt_of_not_le hlen)
  have hend := withoutEndSlashes_child hroot hname.toPlainName
  refine ⟨d ++ [n], ⟨hw.put hd hn hv rfl, hend, hfree, fun q e he => ?_, fun S hS hSW q hq => ?_⟩,
    hv, hl, rfl⟩
  · rw [get?_put (by simp)] at he
    split at he
    · obtain rfl := Option.some.inj he
      exact Or.inr rfl
    · exact Or.inl he
  · rw [get?_put (by simp), if_neg]
    rintro rfl
    exact hSW (hq.trans (List.prefix_append _ _))

end Host

end CodeIndex

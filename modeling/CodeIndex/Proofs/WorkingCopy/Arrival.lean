import CodeIndex.Proofs.WorkingCopy.Confined

/-!
# Where a destination leads

The names of a settled destination are not always those of the place where the copy goes: a link may
be left among them. As far as the destination is there, it leads to some directory, and the names
that are missing come below that. A copy changes nothing but what is at its place there.

* `FileSystem.Arrives` : where the path of a place leads, as far as it is there;
* `Arrives.cleared`, `Arrives.dug`, `Arrives.createDirs` : making a place changes nothing elsewhere;
* `Host.copyProject_arrives` : nor does a copy, however it ends.
-/

namespace CodeIndex

open FileSystem

variable {host : Host} {fs gs hs : FileSystem} {request : Request} {settings : Settings}
  {cwd p u v D D' S : Place} {given source : Path} {name : String}

namespace FileSystem

/-- The path of `p` leads to the directory `D`, and of the names `u` that come after it in a longer
path nothing is there. -/
structure Arrives (fs : FileSystem) (cwd p u D : Place) : Prop where
  directory : ∃ m, fs.lookup cwd (Path.ofNames p) true = .ok (.entry D (.dir m))
  missing : ∀ n ∈ u.head?, fs.get? (D ++ [n]) = none

namespace Arrives

/-- A path that leads to a directory has none of the missing names. -/
theorem eq_of_lookup {m : Nat} (h : Arrives fs cwd p u D) (hp : PlainPlace (p ++ v)) (hv : v <+: u)
    (hD' : fs.lookup cwd (Path.ofNames (p ++ v)) true = .ok (.entry D' (.dir m))) :
    v = [] ∧ D' = D := by
  obtain ⟨m', hD⟩ := h.directory
  cases v with
  | nil =>
    rw [List.append_nil] at hD'
    exact ⟨rfl, (Found.entry.inj (Except.ok.inj (hD'.symm.trans hD))).1⟩
  | cons n v =>
    obtain ⟨rest, rfl⟩ := hv
    exact absurd (h.missing n rfl) (get?_ne_none_of_lookup_ofNames hp hD hD')

/-- What stands where the copy is to be is directly below the directory to which the destination
leads. -/
theorem cleared (h : Arrives fs cwd p u D) (hR : PlainPlace (p ++ u)) (hname : PlainName name)
    (hcleared : Cleared fs cwd (Path.ofNames (p ++ u ++ [name])) gs) :
    gs = fs ∨ u = [] ∧ Removed fs gs (D ++ [name]) := by
  cases hcleared with
  | nothing => exact Or.inl rfl
  | @removed _ q e hstat hgone =>
    obtain ⟨D', m, hD', hplace⟩ := lookup_ofNames_name hR hname (stat_eq_ok_iff.mp hstat)
    obtain ⟨hu, rfl⟩ := h.eq_of_lookup hR (List.prefix_refl u) hD'
    obtain rfl : q = D' ++ [name] := hplace
    exact Or.inr ⟨hu, hgone⟩

/-- Clearing changes nothing but what is at the place of the copy. -/
theorem confined_of_cleared (h : Arrives fs cwd p u D) (hR : PlainPlace (p ++ u))
    (hname : PlainName name) (hcleared : Cleared fs cwd (Path.ofNames (p ++ u ++ [name])) gs) :
    Confined fs gs (D ++ u ++ [name]) := by
  rcases h.cleared hR hname hcleared with rfl | ⟨rfl, hgone⟩
  · exact Confined.refl _ _
  · rw [List.append_nil]
    exact Confined.of_removed hgone

/-- Digging goes down to the place of the copy. Where it begins at something that was cleared, all
of it is in that place. -/
theorem dug {p' u' w F : Place} (h : Arrives fs cwd p u D) (hR : PlainPlace (p ++ u))
    (hname : PlainName name) (hcleared : Cleared fs cwd (Path.ofNames (p ++ u ++ [name])) gs)
    (hdug : Dug gs hs cwd p' u' F) (hpath : p' ++ u' ++ w = p ++ u) :
    F ++ u' ++ w = D ++ u ∨ D ++ u ++ [name] <+: F := by
  obtain ⟨m, hD⟩ := h.directory
  rcases List.eq_nil_or_concat p' with rfl | ⟨p₁, n, rfl⟩
  · have hvacant := hdug.vacant
    rw [lookup_root] at hvacant
    cases hvacant
  rw [List.concat_eq_append] at hdug hpath
  have hp₁ : PlainPlace p₁ ∧ PlainName n := by
    rw [← hpath] at hR
    simp only [plainPlace_append, plainPlace_cons] at hR
    exact ⟨hR.1.1.1, hR.1.1.2.1⟩
  obtain ⟨D₁, m₁, hgs, hF⟩ := lookup_ofNames_name hp₁.1 hp₁.2 hdug.vacant
  obtain rfl : F = D₁ ++ [n] := hF
  have hfs := lookup_mono (fun q x => hcleared.get?_of_some) hgs
  -- The digging begins below the directory, or above it on the way to it.
  rw [List.append_assoc, List.append_assoc, List.append_eq_append_iff] at hpath
  rcases hpath with ⟨v, rfl, hv⟩ | ⟨v, rfl, rfl⟩
  · cases v with
    | nil =>
      obtain rfl : n :: (u' ++ w) = u := hv
      rw [List.append_nil] at hD
      obtain ⟨rfl, -⟩ := Found.entry.inj (Except.ok.inj (hfs.symm.trans hD))
      exact Or.inl (by simp)
    | cons k v =>
      obtain ⟨rfl, -⟩ := List.cons.inj hv
      have hthere := get?_ne_none_of_lookup_ofNames (plainPlace_append.mp hR).1 hfs hD
      obtain ⟨d, n', hplace, -, -, hnone⟩ := vacant_of_lookup hdug.vacant
      rcases h.cleared hR hname hcleared with rfl | ⟨rfl, hgone⟩
      · exact absurd hnone hthere
      · rw [hgone.get?_eq] at hnone
        rw [List.append_nil]
        by_contra hnot
        rw [not_or] at hnot
        rw [if_neg hnot.2] at hnone
        exact hthere hnone
  · obtain ⟨rfl, rfl⟩ := h.eq_of_lookup hp₁.1 (List.prefix_append v _) hfs
    exact Or.inl (by simp)

/-- Making the directories down to the destination changes nothing but what is at the place of the
copy, and the directories above it. When they are made, what is free for the copy is there. -/
theorem createDirs {oe : Option Errno} (h : Arrives fs cwd p u D) (hw : fs.WellFormed)
    (hR : PlainPlace (p ++ u)) (hname : IsName name)
    (hcleared : Cleared fs cwd (Path.ofNames (p ++ u ++ [name])) gs)
    (hmade : gs.createDirs cwd (Path.ofNames (p ++ u)) = (hs, oe)) :
    Confined gs hs (D ++ u ++ [name]) ∧ (oe = none →
      ∃ W, D ++ u ++ [name] <+: W ∧ hs.Free cwd (Path.ofNames (p ++ u ++ [name])) W) := by
  have hwg := hcleared.wellFormed hw
  have hwh := hwg.createDirs cwd (Path.ofNames (p ++ u))
  have hadded := dirsAdded_createDirs gs cwd (Path.ofNames (p ++ u))
  rw [hmade] at hwh hadded
  rcases createDirs_ofNames hwg hR hmade with ⟨rfl, hdir⟩ | ⟨p', u', F, ⟨w, hpath⟩, hdug, hall⟩
  · refine ⟨Confined.refl _ _, fun hnone => ?_⟩
    obtain ⟨D', m, hD'⟩ := isDir_iff.mp (hdir hnone)
    have hfs := lookup_mono (fun q x => hcleared.get?_of_some) hD'
    obtain ⟨rfl, rfl⟩ := h.eq_of_lookup hR (List.prefix_refl u) hfs
    refine ⟨D' ++ [name], by simp, (hcleared.ready hw hR hname hD').free⟩
  · have hready : oe = none →
        hs.Free cwd (Path.ofNames (p ++ u ++ [name])) (F ++ u' ++ [name]) := by
      intro hnone
      rw [← hall hnone] at hR hcleared ⊢
      exact (hdug.ready hw hR hname hcleared hwh hadded).free
    rcases h.dug hR hname.toPlainName hcleared hdug hpath with hplace | hinside
    · refine ⟨Confined.of_above hadded fun q hq => ?_, fun hnone => ⟨_, ?_, hready hnone⟩⟩
      · rw [← hplace, List.append_assoc _ w]
        exact (hdug.changed q hq).2.trans (List.prefix_append _ _)
      · obtain rfl : w = [] := by
          rw [← hall hnone] at hpath
          exact List.append_right_eq_self.mp hpath
        rw [List.append_nil] at hplace
        exact hplace ▸ List.prefix_refl _
    · refine ⟨Confined.of_below fun q hq => hinside.trans (hdug.changed q hq).1,
        fun hnone => ⟨_, ?_, hready hnone⟩⟩
      rw [List.append_assoc F]
      exact hinside.trans (List.prefix_append F _)

end Arrives

end FileSystem

namespace Host

/-- Making a place below a destination changes nothing but what is at the place to which it leads,
and the directories above. When it is made, what is free for the copy is there. -/
theorem placeBelow_arrives (hw : fs.WellFormed) (hname : IsName name) (hR : PlainPlace (p ++ u))
    (hsettled : fs.settledDestination host.cwd given = .ok (Path.ofNames (p ++ u)))
    (harrives : fs.Arrives host.cwd p u D) {r : Except CopyError WorkingCopy}
    (h : host.placeBelow given source name fs = (r, gs)) :
    Confined fs gs (D ++ u ++ [name]) ∧ ∀ copy, r = .ok copy →
      ∃ W, D ++ u ++ [name] <+: W ∧ gs.Free host.cwd copy.path W := by
  have hplain := hname.toPlainName
  rcases placeBelow_cases hw hplain host given source with ⟨e, he⟩ |
    ⟨R', fs₁, hsettled', hR', -, hcleared, hend⟩
  · rw [he] at h
    obtain ⟨rfl, rfl⟩ := Prod.mk.inj h
    exact ⟨Confined.refl fs _, fun copy hok => by cases hok⟩
  · rw [hsettled] at hsettled'
    obtain rfl := ofNames_injective hR hR' (Except.ok.inj hsettled')
    have hconf := harrives.confined_of_cleared hR hplain hcleared
    rcases hmade : fs₁.createDirs host.cwd (Path.ofNames (p ++ u)) with ⟨hs, oe⟩
    obtain ⟨hdirs, hfree⟩ := harrives.createDirs hw hR hname hcleared hmade
    rw [hmade] at hend
    rcases hend with ⟨e, he⟩ | ⟨hnone, hok⟩
    · rw [he] at h
      obtain ⟨rfl, rfl⟩ := Prod.mk.inj h
      exact ⟨hconf.trans hdirs, fun copy hok => by cases hok⟩
    · rw [hok] at h
      obtain ⟨rfl, rfl⟩ := Prod.mk.inj h
      refine ⟨hconf.trans hdirs, fun copy hcopy => ?_⟩
      obtain rfl := Except.ok.inj hcopy
      exact hfree hnone

/-- However a copy to a destination ends, it changes nothing but what is at the place to which the
destination leads, and the directories above. -/
theorem copyProject_arrives (hw : fs.WellFormed) (hS : fs.isDirAt S = true)
    (hsource : request.source = Path.ofNames S) (hdest : request.destination = some given)
    (hR : PlainPlace (p ++ u))
    (hsettled : fs.settledDestination host.cwd given = .ok (Path.ofNames (p ++ u)))
    (harrives : fs.Arrives host.cwd p u D) (skip? : Except CopyError Exclusion) :
    Confined fs (host.prepareCopy skip? request settings fs).2 (copyPlace (D ++ u) S) ∧
      Confined fs (host.copyProject skip? request settings fs).2 (copyPlace (D ++ u) S) := by
  have hbelow : ∀ name, host.placeWorkingCopy request settings name fs =
      host.placeBelow given (Path.ofNames S) name fs := by
    intro name
    unfold placeWorkingCopy
    rw [hdest, hsource]
  have hplaceOf : ∀ {name}, host.projectName fs request.source = .ok name →
      IsName name ∧ copyPlace (D ++ u) S = D ++ u ++ [name] := by
    intro name hproject
    rw [hsource] at hproject
    obtain ⟨hname, T, rfl⟩ := projectName_eq_ok hw hS hproject
    exact ⟨hname, by simp [copyPlace]⟩
  unfold copyProject
  rw [Effect.bind_apply]
  rcases host.prepareCopy_cases skip? request settings fs with ⟨e, he⟩ |
    ⟨name, skip, hproject, -, ⟨e, gs, hplace, he⟩ | ⟨copy, gs, hplace, hok⟩⟩
  · rw [he]
    exact ⟨Confined.refl fs _, Confined.refl fs _⟩
  · obtain ⟨hname, hcopyPlace⟩ := hplaceOf hproject
    rw [hbelow] at hplace
    obtain ⟨hconf, -⟩ := placeBelow_arrives hw hname hR hsettled harrives hplace
    rw [he, hcopyPlace]
    exact ⟨hconf, hconf⟩
  · obtain ⟨hname, hcopyPlace⟩ := hplaceOf hproject
    rw [hbelow] at hplace
    obtain ⟨hconf, hmade⟩ := placeBelow_arrives hw hname hR hsettled harrives hplace
    obtain ⟨W, hW, hfree⟩ := hmade copy rfl
    obtain ⟨W', hready⟩ := ready_of_placeBelow hw hname hplace
    obtain ⟨d, hd⟩ := placement_of_placeBelow hw hname.toPlainName hplace
    obtain ⟨-, hchanged⟩ := fillWorkingCopy_frame hready.wellFormed hready.noEndSlash hd host skip
      request.source hfree
    rw [hok, hcopyPlace]
    exact ⟨hconf, hconf.trans (Confined.of_below fun q hq => hW.trans (hchanged q hq))⟩

end Host

end CodeIndex

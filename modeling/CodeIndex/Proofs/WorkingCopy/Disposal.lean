import CodeIndex.Proofs.Job.Passage
import CodeIndex.Proofs.WorkingCopy.Standing

/-!
# What the disposal of a copy cuts off

Disposing of a temporary copy removes the directory that was made for it. Then the paths that came
by this directory lead nowhere, and all others lead where they led.

* `Host.dispose_cases` : the temporary directory is removed, or nothing happens;
* `Host.CutsOff` : the disposal removes what the way of a path comes by;
* `Host.stat_dispose_iff` : what is found after the disposal;
* `Host.Sweeps`, `Host.get?_dispose_iff` : what stands at a place after the disposal;
* `Host.isKept_iff_pathExists` : a copy is said to be kept exactly if it is there.
-/

namespace CodeIndex

open FileSystem

variable {host : Host} {fs gs hs ks : FileSystem} {request : Request} {settings : Settings}
  {skip : Exclusion} {skip? : Except CopyError Exclusion} {copy : WorkingCopy} {F q : Place}
  {name : String} {path root : Path} {e : Entry} {keepCopy : Bool}

namespace Host

/-- The disposal of a copy removes what the way of a path comes by. -/
def CutsOff (host : Host) (copy : WorkingCopy) (keepCopy : Bool) (fs : FileSystem) (path : Path) :
    Prop :=
  ∃ root gs F e, keepCopy = false ∧ copy.placement = .temporary root ∧
    fs.removeTree host.cwd root = .ok gs ∧ fs.stat host.cwd root false = .ok (F, e) ∧
    fs.ComesBy host.cwd path F

/-- The temporary directory of a copy is removed, or nothing happens. -/
theorem dispose_cases (host : Host) (copy : WorkingCopy) (keepCopy : Bool) (fs : FileSystem) :
    (∃ root gs, keepCopy = false ∧ copy.placement = .temporary root ∧
      fs.removeTree host.cwd root = .ok gs ∧
      host.dispose copy keepCopy fs = (.removed root, gs)) ∨
    (host.dispose copy keepCopy fs).1.isKept = true ∧ (host.dispose copy keepCopy fs).2 = fs ∧
      ∀ path, ¬ host.CutsOff copy keepCopy fs path := by
  cases hplace : copy.placement with
  | chosen d =>
    refine Or.inr ⟨?_, dispose_of_kept (Or.inr ⟨d, hplace⟩), ?_⟩
    · unfold dispose
      rw [hplace]
      rfl
    · rintro path ⟨root, gs, F, e, -, hroot, -⟩
      rw [hplace] at hroot
      cases hroot
  | temporary root =>
    cases keepCopy with
    | true =>
      refine Or.inr ⟨?_, dispose_of_kept (Or.inl rfl), ?_⟩
      · unfold dispose
        rw [hplace]
        rfl
      · rintro path ⟨root, gs, F, e, hkeep, -⟩
        cases hkeep
    | false =>
      rw [dispose_of_temporary hplace]
      cases hremoved : fs.removeTree host.cwd root with
      | ok gs => exact Or.inl ⟨root, gs, rfl, rfl, hremoved, rfl⟩
      | error err =>
        refine Or.inr ⟨rfl, rfl, ?_⟩
        rintro path ⟨root', gs, F, e, -, hroot, hok, -⟩
        rw [hplace] at hroot
        obtain rfl := Placement.temporary.inj hroot
        rw [hremoved] at hok
        cases hok

/-- What is found after the disposal of a copy is what was found before, on ways that it does not
cut off. -/
theorem stat_dispose_iff (hw : fs.WellFormed) :
    (host.dispose copy keepCopy fs).2.stat host.cwd path true = .ok (q, e) ↔
      fs.stat host.cwd path true = .ok (q, e) ∧ ¬ host.CutsOff copy keepCopy fs path := by
  rcases host.dispose_cases copy keepCopy fs with ⟨root, gs, hkeep, hroot, hremoved, hdispose⟩ |
    ⟨-, hsame, hcut⟩
  · obtain ⟨F, x, hF, hgone⟩ := gone_of_removeTree hw hremoved
    have hcut : host.CutsOff copy keepCopy fs path ↔ fs.ComesBy host.cwd path F := by
      constructor
      · rintro ⟨root', gs', F', x', -, hroot', -, hF', hcomes⟩
        rw [hroot] at hroot'
        obtain rfl := Placement.temporary.inj hroot'
        rw [hF] at hF'
        obtain ⟨rfl, -⟩ := Prod.mk.inj (Except.ok.inj hF')
        exact hcomes
      · exact fun hcomes => ⟨root, gs, F, x, hkeep, hroot, hremoved, hF, hcomes⟩
    rw [hdispose, hcut, stat_eq_ok_iff, stat_eq_ok_iff]
    exact lookup_iff_of_gone hgone
  · rw [hsame]
    exact ⟨fun h => ⟨h, hcut path⟩, And.left⟩

theorem pathExists_dispose_iff (hw : fs.WellFormed) :
    (host.dispose copy keepCopy fs).2.pathExists host.cwd path = true ↔
      fs.pathExists host.cwd path = true ∧ ¬ host.CutsOff copy keepCopy fs path := by
  rw [pathExists_iff, pathExists_iff]
  simp only [stat_dispose_iff hw, exists_and_right]

/-- The disposal of a copy takes with it what stands at a place. -/
def Sweeps (host : Host) (copy : WorkingCopy) (keepCopy : Bool) (fs : FileSystem) (q : Place) :
    Prop :=
  ∃ root gs F e, keepCopy = false ∧ copy.placement = .temporary root ∧
    fs.removeTree host.cwd root = .ok gs ∧ fs.stat host.cwd root false = .ok (F, e) ∧ F <+: q

/-- After the disposal of a copy there is what was there before, where it does not sweep. -/
theorem get?_dispose_iff (hw : fs.WellFormed) (hq : q ≠ []) :
    (host.dispose copy keepCopy fs).2.get? q = some e ↔
      fs.get? q = some e ∧ ¬ host.Sweeps copy keepCopy fs q := by
  rcases host.dispose_cases copy keepCopy fs with ⟨root, gs, hkeep, hroot, hremoved, hdispose⟩ |
    ⟨hkept, hsame, -⟩
  · obtain ⟨F, x, hF, hgone⟩ := gone_of_removeTree hw hremoved
    have hsweeps : host.Sweeps copy keepCopy fs q ↔ F <+: q := by
      constructor
      · rintro ⟨root', gs', F', x', -, hroot', -, hF', hpre⟩
        rw [hroot] at hroot'
        obtain rfl := Placement.temporary.inj hroot'
        rw [hF] at hF'
        obtain ⟨rfl, -⟩ := Prod.mk.inj (Except.ok.inj hF')
        exact hpre
      · intro hpre
        exact ⟨root, gs, F, x, hkeep, hroot, hremoved, hF, hpre⟩
    rw [hdispose, hsweeps, hgone q hq]
    by_cases hpre : F <+: q <;> simp [hpre]
  · rw [hsame]
    refine ⟨fun h => ⟨h, ?_⟩, And.left⟩
    rintro ⟨root, gs, F, x, rfl, hroot, hremoved, -⟩
    rw [dispose_of_temporary hroot, hremoved] at hkept
    cases hkept

/-! ## Copies in temporary directories -/

/-- A copy in a temporary directory has its place there. -/
theorem inTemp_of_prepareCopy (hw : fs.WellFormed)
    (h : host.prepareCopy skip? request settings fs = (.ok (skip, copy), gs))
    (hroot : copy.placement = .temporary root) : ∃ F name, InTemp host fs gs copy root F name := by
  cases hdest : request.destination with
  | some given =>
    obtain ⟨d, -, -, hd, -⟩ := isDir_of_prepareCopy hw hdest h
    rw [hroot] at hd
    cases hd
  | none =>
    obtain ⟨name, hname, hplace⟩ := prepareCopy_eq_ok h
    obtain ⟨root', F, htemp⟩ := inTemp_of_placeWorkingCopy hw hname hdest hplace
    have hroot' : copy.placement = .temporary root' := congrArg WorkingCopy.placement htemp.copy_eq
    rw [hroot] at hroot'
    obtain rfl := Placement.temporary.inj hroot'
    exact ⟨F, name, htemp⟩

/-- When its temporary directory has been removed, a copy is not found, nor what is spelled below
it. -/
theorem InTemp.pathExists_of_removed (h : InTemp host fs gs copy root F name) (hw : hs.WellFormed)
    (hremoved : hs.removeTree host.cwd root = .ok ks) (hpath : path.startsWith copy.path = true) :
    ks.pathExists host.cwd path = false := by
  rw [Bool.eq_false_iff, Ne, pathExists_iff]
  rintro ⟨q, e, hstat⟩
  have hcopy : copy.path = root.child name := congrArg WorkingCopy.path h.copy_eq
  rw [hcopy] at hpath
  exact not_lookup_of_startsWith hw h.isAbsolute h.isName.toPlainName hremoved hpath
    (stat_eq_ok_iff.mp hstat)

/-- What is spelled below a copy that was not kept is not found. -/
theorem pathExists_of_not_kept (hw : fs.WellFormed)
    (h : host.prepareCopy skip? request settings fs = (.ok (skip, copy), gs)) (hwh : hs.WellFormed)
    (hgone : (host.dispose copy keepCopy hs).1.isKept = false)
    (hpath : path.startsWith copy.path = true) :
    (host.dispose copy keepCopy hs).2.pathExists host.cwd path = false := by
  rcases host.dispose_cases copy keepCopy hs with ⟨root, ks, -, hroot, hremoved, hdispose⟩ |
    ⟨hkept, -, -⟩
  · obtain ⟨F, name, htemp⟩ := inTemp_of_prepareCopy hw h hroot
    rw [hdispose]
    exact htemp.pathExists_of_removed hwh hremoved hpath
  · rw [hkept] at hgone
    cases hgone

/-- A copy that was there is said to be kept exactly if it is there. -/
theorem isKept_iff_pathExists (hw : fs.WellFormed)
    (h : host.prepareCopy skip? request settings fs = (.ok (skip, copy), gs)) (hwh : hs.WellFormed)
    (hthere : hs.pathExists host.cwd copy.path = true) :
    (host.dispose copy keepCopy hs).1.isKept = true ↔
      (host.dispose copy keepCopy hs).2.pathExists host.cwd copy.path = true := by
  cases hkept : (host.dispose copy keepCopy hs).1.isKept with
  | false => rw [pathExists_of_not_kept hw h hwh hkept copy.path.startsWith_self]
  | true =>
    rcases host.dispose_cases copy keepCopy hs with ⟨root, ks, -, -, -, hdispose⟩ | ⟨-, hsame, -⟩
    · rw [hdispose] at hkept
      cases hkept
    · rw [hsame, hthere]

end Host

end CodeIndex

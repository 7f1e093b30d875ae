import CodeIndex.Proofs.Export.Outcome
import CodeIndex.Proofs.FileSystem.Ways
import CodeIndex.Proofs.Indexing
import CodeIndex.Proofs.Job.Passage
import CodeIndex.Proofs.WorkingCopy.Confined

/-!
# What the steps of a run do

Each step of a run that has its copy keeps the project as it was, and keeps a temporary directory
where it can be removed without the project.

* `Host.KeepsTo` : a tool that changes nothing but what is below a place and its own output;
* `Spared` : what is kept, with a lemma for each kind of step: `Spared.tool`, `Spared.mono`,
  `Spared.erase`;
* `Spared.sameBelow_dispose` : the disposal of the copy is none of the project.
-/

namespace CodeIndex

open FileSystem

variable {host : Host} {fs gs hs : FileSystem} {S W F q : Place} {copy : WorkingCopy} {root o : Path}
  {sink : OpenFile}

/-- An open file stands at a place. -/
def OpenFile.IsAt (sink : OpenFile) (fs : FileSystem) (q : Place) : Prop :=
  ∃ id mode bytes, sink = .file id ∧ fs.get? q = some (.file id mode bytes)

/-- Changing a file changes nothing but the places where it stands. -/
theorem OpenFile.isAt_of_mapFile {id : Nat} {f : Nat × List UInt8 → Nat × List UInt8}
    (h : (fs.mapFile id f).get? q ≠ fs.get? q) : (OpenFile.file id).IsAt fs q := by
  by_contra hnot
  refine h (get?_mapFile_of_ne fun e he hid => hnot ?_)
  cases e with
  | file id' mode bytes =>
    obtain rfl := Option.some.inj hid
    exact ⟨id', mode, bytes, rfl, he⟩
  | _ => cases hid

/-- Writing changes nothing but the file that is open. -/
theorem OpenFile.isAt_of_write {bytes : List UInt8}
    (h : (fs.write sink bytes).get? q ≠ fs.get? q) : sink.IsAt fs q := by
  cases sink with
  | discard => exact absurd rfl h
  | file id => exact isAt_of_mapFile h

namespace FileSystem

theorem SameBelow.trans (h : SameBelow fs gs S) (h' : SameBelow gs hs S) : SameBelow fs hs S :=
  fun q hq => (h' q hq).trans (h q hq)

theorem SameBelow.symm (h : SameBelow fs gs S) : SameBelow gs fs S := fun q hq => (h q hq).symm

theorem sameBelow_iff : SameBelow fs gs S ↔
    ∀ x ∈ fs.entries ++ gs.entries, S <+: x.1 → gs.get? x.1 = fs.get? x.1 := by
  refine ⟨fun h x _ hx => h x.1 hx, fun h q hq => ?_⟩
  by_cases hnil : q = []
  · rw [hnil]
    rfl
  · cases hg : gs.get? q with
    | some e => rw [← hg, h (q, e) (List.mem_append_right _ (mem_entries hnil hg)) hq]
    | none =>
      cases hf : fs.get? q with
      | some e => rw [← hg, ← hf, h (q, e) (List.mem_append_left _ (mem_entries hnil hf)) hq]
      | none => rfl

instance (fs gs : FileSystem) (S : Place) : Decidable (SameBelow fs gs S) :=
  decidable_of_iff _ sameBelow_iff.symm

end FileSystem

namespace Host

/-- Running a tool changes nothing but what is below a place, and the file that its output goes
to. -/
def KeepsTo (host : Host) (tool : Tool) (W : Place) : Prop :=
  ∀ command stdout limit fs, command.program = tool.path → fs.WellFormed →
    let gs := (host.run tool.name command stdout limit fs).2
    gs.WellFormed ∧
      ∀ q, gs.get? q ≠ fs.get? q → W <+: q ∨ ∃ sink, stdout = some sink ∧ sink.IsAt fs q

/-- What is started for a command has its arguments, and the output that is given. -/
theorem launch_eq_ok {command : Command} {stdout : Option OpenFile} {launch : Launch}
    (h : host.launch fs command stdout = .ok launch) :
    launch.stdout = stdout ∧ launch.arguments = command.arguments := by
  obtain ⟨directory, -, hrest⟩ := bind_eq_ok_iff.mp h
  obtain ⟨found, -, hpure⟩ := bind_eq_ok_iff.mp hrest
  obtain rfl := Except.ok.inj hpure
  exact ⟨rfl, rfl⟩

/-- Running a command leaves what was there, or what its program leaves. -/
theorem run_snd (host : Host) (name : String) (command : Command) (stdout : Option OpenFile)
    (limit : Option Nat) (fs : FileSystem) : (host.run name command stdout limit fs).2 = fs ∨
      ∃ launch allowance, launch.stdout = stdout ∧ launch.arguments = command.arguments ∧
        (host.run name command stdout limit fs).2 = (host.behaviour launch fs allowance).files := by
  unfold run
  cases host.checkTempDir fs with
  | error e => exact Or.inl rfl
  | ok u =>
    dsimp only
    cases hlaunch : host.launch fs command stdout with
    | error e => exact Or.inl rfl
    | ok launch =>
      obtain ⟨hstdout, harguments⟩ := launch_eq_ok hlaunch
      refine Or.inr ⟨launch, limit.map lastPoll, hstdout, harguments, ?_⟩
      dsimp only
      split <;> rfl

/-- Where programs change nothing but what is below a place and their output, so do tools. -/
theorem keepsTo_of_behaviour (h : ∀ launch fs allowance, fs.WellFormed →
      let gs := (host.behaviour launch fs allowance).files
      gs.WellFormed ∧ ∀ q, gs.get? q ≠ fs.get? q →
        W <+: q ∨ ∃ sink, launch.stdout = some sink ∧ sink.IsAt fs q)
    (tool : Tool) : host.KeepsTo tool W := by
  intro command stdout limit fs _ hw
  rcases host.run_snd tool.name command stdout limit fs with hsame | ⟨launch, allowance, rfl, -, hrun⟩
  · rw [hsame]
    exact ⟨hw, fun q hq => absurd rfl hq⟩
  · rw [hrun]
    exact h launch fs allowance hw

end Host

/-! ## What is kept -/

/-- The project is as it was, and the directory made for a temporary copy is where its path leads.
The copy is at `W`. -/
structure Spared (host : Host) (fs gs : FileSystem) (copy : WorkingCopy) (S W : Place) : Prop where
  wellFormed : gs.WellFormed
  sameBelow : SameBelow fs gs S
  temporary : ∀ root, copy.placement = .temporary root → ∃ F n, W = F ++ [n] ∧ ¬ S <+: F ∧
    fs.lookup host.cwd (withoutEndSlashes root) false = .ok (.vacant F) ∧ KeepsWays fs gs ∧
    gs.isDirAt F = true

namespace Spared

/-- A tool that keeps to the copy keeps the rest, if its output does not go to the project. -/
theorem tool (h : Spared host fs gs copy S W) (hw : fs.WellFormed) (hSW : ¬ S <+: W) (hWS : ¬ W <+: S)
    (hwh : hs.WellFormed) (stdout : Option OpenFile)
    (hchanged : ∀ q, hs.get? q ≠ gs.get? q →
      W <+: q ∨ ∃ sink, stdout = some sink ∧ sink.IsAt gs q)
    (hsink : ∀ q sink, S <+: q → stdout = some sink → sink.IsAt gs q → hs.get? q = gs.get? q) :
    Spared host fs hs copy S W where
  wellFormed := hwh
  sameBelow := h.sameBelow.trans fun q hq => by
    by_contra hne
    rcases hchanged q hne with hbelow | ⟨sink, hstdout, hat⟩
    · exact not_prefix_of_apart hSW hWS hq hbelow
    · exact hne (hsink q sink hq hstdout hat)
  temporary root hroot := by
    obtain ⟨F, n, rfl, hSF, hv, hways, hdir⟩ := h.temporary root hroot
    have hkeep : ∀ q x, ¬ F ++ [n] <+: q → gs.get? q = some x → x.fileId? = none →
        hs.get? q = some x := by
      intro q x hq hx hid
      rw [← hx]
      by_contra hne
      rcases hchanged q hne with hbelow | ⟨sink, -, id, mode, bytes, -, hat⟩
      · exact hq hbelow
      · rw [hx] at hat
        rw [Option.some.inj hat] at hid
        cases hid
    refine ⟨F, n, rfl, hSF, hv, hways.step fun q x hq hx hid => hkeep q x ?_ hx hid, ?_⟩
    · intro hbelow
      exact hq (hw.get?_eq_none_of_vacant hv ((List.prefix_append F [n]).trans hbelow))
    · obtain ⟨m, hm⟩ := isDirAt_iff.mp hdir
      refine isDirAt_iff.mpr ⟨m, hkeep F _ (fun hpre => ?_) hm rfl⟩
      have hlength := hpre.length_le
      rw [List.length_append, List.length_singleton] at hlength
      omega

/-- What leaves all but files in place, and the project as it is, keeps the rest. -/
theorem mono (h : Spared host fs gs copy S W) (hwh : hs.WellFormed) (hsame : SameBelow gs hs S)
    (hkeep : ∀ q x, gs.get? q = some x → x.fileId? = none → hs.get? q = some x) :
    Spared host fs hs copy S W where
  wellFormed := hwh
  sameBelow := h.sameBelow.trans hsame
  temporary root hroot := by
    obtain ⟨F, n, hW, hSF, hv, hways, hdir⟩ := h.temporary root hroot
    obtain ⟨m, hm⟩ := isDirAt_iff.mp hdir
    exact ⟨F, n, hW, hSF, hv, hways.step fun q x _ hx hid => hkeep q x hx hid,
      isDirAt_iff.mpr ⟨m, hkeep F _ hm rfl⟩⟩

/-- Removing what holds no bytes, and is not in the project, keeps the rest. -/
theorem erase (h : Spared host fs gs copy S W) {e : Entry}
    (hstat : gs.stat host.cwd o false = .ok (q, e)) (hdir : e.isDir = false)
    (hsize : gs.size host.cwd o = .ok 0) (hSq : ¬ S <+: q) :
    Spared host fs (gs.erase q) copy S W := by
  have he := get?_of_lookup (stat_eq_ok_iff.mp hstat)
  have hq := ne_nil_of_isDir he hdir
  have hnodir : gs.isDirAt q = false := by rw [FileSystem.isDirAt, he]; exact hdir
  refine ⟨h.wellFormed.erase hnodir, h.sameBelow.trans fun r hr => ?_, fun root hroot => ?_⟩
  · rw [get?_erase hq, if_neg]
    rintro rfl
    exact hSq hr
  · obtain ⟨F, n, hW, hSF, hv, hways, hF⟩ := h.temporary root hroot
    refine ⟨F, n, hW, hSF, hv, hways.erase h.wellFormed hstat hdir hsize, ?_⟩
    rw [FileSystem.isDirAt, get?_erase hq, if_neg]
    · exact hF
    · rintro rfl
      rw [hnodir] at hF
      cases hF

/-- A temporary directory is removed without the project. -/
theorem sameBelow_removeTree (h : Spared host fs gs copy S W) (hw : fs.WellFormed)
    (hS : fs.isDirAt S = true) (hroot : copy.placement = .temporary root)
    (hgone : gs.removeTree host.cwd root = .ok hs) : SameBelow fs hs S := by
  obtain ⟨F, n, -, hSF, hv, hways, hdir⟩ := h.temporary root hroot
  obtain rfl := hways.removeTree hdir hv hgone
  have hFS : ¬ F <+: S := by
    intro hpre
    have hnone := hw.get?_eq_none_of_vacant hv hpre
    rw [FileSystem.isDirAt, hnone] at hS
    cases hS
  refine h.sameBelow.trans fun q hq => ?_
  by_cases hnil : q = []
  · rw [hnil]
    rfl
  · rw [get?_eraseTree hnil, if_neg (not_prefix_of_apart hSF hFS hq)]

/-- The disposal of the copy is none of the project. -/
theorem sameBelow_dispose (h : Spared host fs gs copy S W) (hw : fs.WellFormed)
    (hS : fs.isDirAt S = true) (keepCopy : Bool) :
    SameBelow fs (host.dispose copy keepCopy gs).2 S := by
  unfold Host.dispose
  cases hplace : copy.placement with
  | chosen d => exact h.sameBelow
  | temporary root =>
    cases keepCopy with
    | true => exact h.sameBelow
    | false =>
      dsimp only
      rw [if_neg Bool.false_ne_true]
      cases hgone : gs.removeTree host.cwd root with
      | ok hs => exact h.sameBelow_removeTree hw hS hplace hgone
      | error e => exact h.sameBelow

end Spared

end CodeIndex

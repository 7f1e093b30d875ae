import CodeIndex.Settings.Load

/-!
# Settings that have been loaded

Settings are those that the environment gives over those in the settings file, if the default
analyzer that comes of it is one.

* `Settings.checked` : settings as they were read, if their default analyzer is one;
* `Settings.load_onto` : what is loaded in an environment.
-/

namespace CodeIndex.Settings

variable {s : Settings}

/-- Settings as they were read, if their default analyzer is one. -/
def checked (read : Except LoadError Settings) : Except SetupError Settings :=
  (read.mapError .unloadable).bind fun s => s.defaultKind.bind fun _ => .ok s

theorem checked_ok (s : Settings) : checked (.ok s) = s.defaultKind.map fun _ => s := by
  have hpassed : (Except.ok s).mapError SetupError.unloadable = .ok s := rfl
  rw [checked, hpassed, Except.bind]
  cases s.defaultKind <;> rfl

theorem checked_eq_ok_iff {read : Except LoadError Settings} :
    checked read = .ok s ↔ read = .ok s ∧ ∃ kind, s.defaultKind = .ok kind := by
  cases read with
  | error e => exact ⟨fun h => (by cases h), fun h => (by cases h.1)⟩
  | ok t =>
    rw [checked_ok]
    cases hkind : t.defaultKind with
    | error e =>
      constructor
      · intro h
        cases h
      · rintro ⟨h, kind, hs⟩
        obtain rfl := Except.ok.inj h
        rw [hkind] at hs
        cases hs
    | ok kind =>
      rw [Except.map]
      constructor
      · intro h
        obtain rfl := Except.ok.inj h
        exact ⟨rfl, kind, hkind⟩
      · intro h
        rw [Except.ok.inj h.1]

/-- The environment is laid over what is in the settings file, if that can be read. -/
theorem load_onto (fs : FileSystem) (cwd : Place) (dir : Path) :
    (∃ e, ∀ environment, load fs cwd dir environment = .error e) ∨
      ∃ root, ∀ environment, load fs cwd dir environment =
        checked (ofSetting ((environmentLayer environment).onto root)) := by
  unfold load
  cases Settings.file? fs cwd dir with
  | none => exact .inr ⟨Setting.empty, fun environment => rfl⟩
  | some file =>
    dsimp only
    cases fileLayer fs cwd file with
    | error e => exact .inl ⟨.unloadable e, fun environment => rfl⟩
    | ok layer => exact .inr ⟨layer.onto Setting.empty, fun environment => rfl⟩

end CodeIndex.Settings

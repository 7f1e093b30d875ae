import CodeIndex.Child.Host

/-!
# Taking effects apart

* `bind_apply` : one action on a state after another, of which an effect is a case;
* `bind_eq_error`, `change_eq_error`, `attempt_eq_error` : what something that fails has done;
* `bind_eq_ok`, `mapError_eq_ok` : what something that succeeds has done;
* `bind_eq_ok_iff` : the same for what is not done to a file system;
* `Host.idleHost` : surroundings that have no effects.
-/

namespace CodeIndex.Effect

variable {ε α β : Type} {fs gs : FileSystem}

theorem bind_apply {σ : Type} (act : ExceptT ε (StateM σ) α) (k : α → ExceptT ε (StateM σ) β)
    (s : σ) : (act >>= k) s = match act s with
      | (.ok a, t) => k a t
      | (.error e, t) => (.error e, t) := by
  change (match act s with | (x, t) => (ExceptT.bindCont k x) t) = _
  rcases act s with ⟨_ | _, _⟩ <;> rfl

theorem bind_of_ok {act : Effect ε α} {a : α} (k : α → Effect ε β) (h : act fs = (.ok a, gs)) :
    (act >>= k) fs = k a gs := by rw [bind_apply, h]

theorem bind_of_error {act : Effect ε α} {e : ε} (k : α → Effect ε β)
    (h : act fs = (.error e, gs)) : (act >>= k) fs = (.error e, gs) := by rw [bind_apply, h]

/-- A sequence fails exactly if one of its effects does. -/
theorem bind_eq_error {act : Effect ε α} {k : α → Effect ε β} {e : ε} :
    (act >>= k) fs = (.error e, gs) ↔
      act fs = (.error e, gs) ∨ ∃ a hs, act fs = (.ok a, hs) ∧ k a hs = (.error e, gs) := by
  rw [bind_apply]
  constructor
  · intro h
    split at h
    · next a hs ha => exact Or.inr ⟨a, hs, ha, h⟩
    · next e' hs ha =>
      cases h
      exact Or.inl ha
  · rintro (ha | ⟨a, hs, ha, h⟩)
    · rw [ha]
    · rw [ha]
      exact h

/-- A sequence succeeds exactly if all of its effects do. -/
theorem bind_eq_ok {act : Effect ε α} {k : α → Effect ε β} {b : β} :
    (act >>= k) fs = (.ok b, gs) ↔ ∃ a hs, act fs = (.ok a, hs) ∧ k a hs = (.ok b, gs) := by
  rw [bind_apply]
  constructor
  · intro h
    split at h
    · next a hs ha => exact ⟨a, hs, ha, h⟩
    · cases h
  · rintro ⟨a, hs, ha, h⟩
    rw [ha]
    exact h

/-- Changing errors changes nothing about what succeeds. -/
theorem mapError_eq_ok {ε' : Type} {act : Effect ε α} {f : ε → ε'} {a : α} :
    act.mapError f fs = (.ok a, gs) ↔ act fs = (.ok a, gs) := by
  unfold mapError
  rcases act fs with ⟨e | b, hs⟩
  · constructor <;> intro h <;> cases h
  · constructor <;> intro h <;> cases h <;> rfl

/-- What fails without a trace leaves what was there, and its error is one that was wrapped. -/
theorem change_eq_error {δ : Type} {wrap : δ → ε} {f : FileSystem → Except δ FileSystem} {e : ε}
    (h : change wrap f fs = (.error e, gs)) : gs = fs ∧ ∃ d, e = wrap d := by
  unfold change at h
  split at h
  · cases h
  · next d _ =>
    obtain ⟨herr, rfl⟩ := Prod.mk.inj h
    exact ⟨rfl, d, (Except.error.inj herr).symm⟩

theorem attempt_eq_error {wrap : Errno → ε} {f : FileSystem → FileSystem × Option Errno} {e : ε}
    (h : attempt wrap f fs = (.error e, gs)) : ∃ d, e = wrap d := by
  unfold attempt at h
  split at h
  · cases h
  · next d _ => exact ⟨d, (Except.error.inj (Prod.mk.inj h).1).symm⟩

end CodeIndex.Effect

namespace CodeIndex

/-- What succeeds without a state to act on. -/
theorem bind_eq_ok_iff {ε α β : Type} {x : Except ε α} {f : α → Except ε β} {b : β} :
    (x >>= f) = .ok b ↔ ∃ a, x = .ok a ∧ f a = .ok b := by
  cases x with
  | error e => exact ⟨fun h => (by cases h), fun ⟨_, h, _⟩ => (by cases h)⟩
  | ok a => exact ⟨fun h => ⟨a, rfl, h⟩, fun ⟨_, ha, h⟩ => Except.ok.inj ha ▸ h⟩

/-- Surroundings in which programs do nothing and fail. -/
def Host.idleHost : Host :=
  ⟨["work"], [], fun _ => "", fun _ fs _ => .ended fs [] [] (.exited 1) 0⟩

end CodeIndex

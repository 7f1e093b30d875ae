import CodeIndex.Child.Run
import Mathlib.Tactic.ByContra

/-!
# Waits come to an end

The loop of a wait has no bound of its own: it ends because the clock goes on. Its last poll is the
first one that sees the end of the child or finds that the limit has passed, and as it looks at the
child first, a child that has ended in time for it is not late.

* `PollClock.Polls` : the polls that the limit leaves time for, of which `Polls.lt_maxPolls` counts
  no more than `maxPolls`;
* `waitFrom_of_seen`, `waitFrom_of_late`, `waitFrom_of_early` : what one poll does;
* `LastPoll`, `exists_lastPoll`, `exists_wait_eq` : the last poll, and that every wait comes to one;
* `wait_settled` : how many polls there are, when the child is late, and what becomes of it;
* `awaited_of_unlimited`, `awaited_eq_ok_iff` : how long a child may run without a limit, and with one
  where nothing but the pauses takes time.
-/

namespace CodeIndex

variable {limit k : Nat} {clock : PollClock} {ending : ChildEnd} {status : ExitStatus}

/-! ## Ends of children -/

namespace ChildEnd

theorem exitedBy?_eq_some_iff {instant : Nat} :
    ending.exitedBy? instant = some status ↔ ∃ time ≤ instant, ending = some (status, time) := by
  cases ending with
  | none => simp [exitedBy?]
  | some child =>
    obtain ⟨own, time⟩ := child
    simp only [exitedBy?]
    constructor
    · intro h
      split at h
      · next htime => exact ⟨time, htime, by rw [Option.some.inj h]⟩
      · cases h
    · rintro ⟨time', htime, heq⟩
      obtain ⟨rfl, rfl⟩ := Prod.mk.inj (Option.some.inj heq)
      exact if_pos htime

/-- What has ended stays so. -/
theorem exitedBy?_mono {i j : Nat} (hij : i ≤ j) (h : ending.exitedBy? i = some status) :
    ending.exitedBy? j = some status := by
  obtain ⟨time, htime, rfl⟩ := exitedBy?_eq_some_iff.mp h
  apply exitedBy?_eq_some_iff.mpr
  exact ⟨time, by omega, rfl⟩

end ChildEnd

namespace Process

/-- A child has ended by an instant, and its status has been collected. -/
def ReapedBy (child : Process) (instant : Nat) : Prop :=
  ∃ status, child.ending.exitedBy? instant = some status ∧ child.collected = some status

theorem reapedBy_reap {child : Process} {instant : Nat}
    (h : child.ending.exitedBy? instant = some status) : child.reap.ReapedBy instant := by
  refine ⟨status, h, ?_⟩
  obtain ⟨time, -, hending⟩ := ChildEnd.exitedBy?_eq_some_iff.mp h
  simp [reap, hending]

/-- Whatever is killed has ended then, if it had not ended before. -/
theorem exitedBy?_kill (child : Process) (instant : Nat) :
    ∃ status, (child.kill instant).ending.exitedBy? instant = some status := by
  unfold kill
  split
  · next status h => exact ⟨status, h⟩
  · exact ⟨_, if_pos (Nat.le_refl instant)⟩

theorem killed_kill (ending : ChildEnd) (instant : Nat) :
    (kill { ending } instant).killed = true ↔ ending.exitedBy? instant = none := by
  unfold kill
  split
  · next h => simp [h]
  · next h => simp [h]

end Process

/-! ## Clocks -/

namespace PollClock

theorem look_mono (clock : PollClock) {i j : Nat} (hij : i ≤ j) : clock.look i ≤ clock.look j := by
  induction hij with
  | refl => exact Nat.le_refl _
  | step _ ih => exact Nat.le_trans ih (Nat.le_trans (clock.look_le_check _)
      (Nat.le_trans (Nat.le_add_right _ _) (clock.check_add_le_look _)))

/-- As many pauses lie before a poll as there are polls before it. -/
theorem pause_mul_le_check (clock : PollClock) (k : Nat) : clock.pause * k ≤ clock.check k := by
  induction k with
  | zero => simp
  | succ k ih =>
    have hnext := clock.check_add_le k
    rw [Nat.mul_succ]
    omega

/-- The limit leaves time for a poll: none before it finds that the limit has passed. -/
def Polls (clock : PollClock) (limit k : Nat) : Prop := ∀ i < k, clock.check i < limit

theorem Polls.succ (h : clock.Polls limit k) (hearly : clock.check k < limit) :
    clock.Polls limit (k + 1) := by
  intro i hi
  rcases Nat.lt_succ_iff_lt_or_eq.mp hi with hlt | rfl
  · exact h i hlt
  · exact hearly

theorem Polls.lt_maxPolls (h : clock.Polls limit k) : k < maxPolls clock.pause limit := by
  have hpause := clock.pause_pos
  rw [maxPolls, Nat.lt_add_one_iff, Nat.le_div_iff_mul_le hpause]
  cases k with
  | zero => omega
  | succ k =>
    have hlast := h k (Nat.lt_add_one k)
    have hslow := clock.pause_mul_le_check k
    rw [Nat.succ_mul, Nat.mul_comm]
    omega

/-- Some poll that the limit leaves time for sees that the child has ended. -/
def Sees (clock : PollClock) (limit : Nat) (ending : ChildEnd) (status : ExitStatus) : Prop :=
  ∃ k, clock.Polls limit k ∧ ending.exitedBy? (clock.look k) = some status

end PollClock

/-! ## One poll -/

/-- A poll that sees the end of the child collects its status. -/
theorem waitFrom_of_seen (limit : Nat) (h : ending.exitedBy? (clock.look k) = some status) :
    waitFrom limit clock { ending } k = ⟨.exited status, k + 1, Process.reap { ending }⟩ := by
  rw [waitFrom, Process.poll, h]

/-- A poll that finds a late child kills it. -/
theorem waitFrom_of_late (h : ending.exitedBy? (clock.look k) = none)
    (hlate : limit ≤ clock.check k) : waitFrom limit clock { ending } k =
      ⟨.timedOut limit, k + 1, (Process.kill { ending } (clock.strike k)).reap⟩ := by
  rw [waitFrom, Process.poll, h]
  exact if_pos hlate

/-- Any other poll leaves the child as it is. -/
theorem waitFrom_of_early (h : ending.exitedBy? (clock.look k) = none)
    (hearly : clock.check k < limit) :
    waitFrom limit clock { ending } k = waitFrom limit clock { ending } (k + 1) := by
  rw [waitFrom, Process.poll, h]
  exact if_neg (Nat.not_le.mpr hearly)

/-! ## All polls -/

/-- The poll that ends a wait: it takes place, and it sees the end of the child or finds that the
limit has passed. -/
structure LastPoll (limit : Nat) (clock : PollClock) (ending : ChildEnd) (k : Nat) : Prop where
  polls : clock.Polls limit k
  late : ending.exitedBy? (clock.look k) = none → limit ≤ clock.check k

/-- A wait that has come to a poll goes on to its last one. -/
theorem exists_lastPoll (limit : Nat) (clock : PollClock) (ending : ChildEnd) (k : Nat)
    (h : clock.Polls limit k) : ∃ n, LastPoll limit clock ending n ∧
      waitFrom limit clock { ending } k = waitFrom limit clock { ending } n := by
  by_cases hon : ending.exitedBy? (clock.look k) = none ∧ clock.check k < limit
  · obtain ⟨hnone, hearly⟩ := hon
    have hpause := clock.pause_pos
    have hnext := clock.check_add_le k
    obtain ⟨n, hlast, heq⟩ := exists_lastPoll limit clock ending (k + 1) (h.succ hearly)
    exact ⟨n, hlast, (waitFrom_of_early hnone hearly).trans heq⟩
  · refine ⟨k, ⟨h, fun hnone => ?_⟩, rfl⟩
    by_contra hearly
    exact hon ⟨hnone, Nat.not_le.mp hearly⟩
termination_by limit - clock.check k

/-- Every wait comes to its last poll. -/
theorem exists_wait_eq (limit : Nat) (clock : PollClock) (ending : ChildEnd) :
    ∃ k, LastPoll limit clock ending k ∧
      wait limit clock ending = waitFrom limit clock { ending } k := by
  apply exists_lastPoll
  intro i hi
  omega

/-- If any poll can see the end of the child, the last one does. -/
theorem LastPoll.sees_iff (h : LastPoll limit clock ending k) :
    clock.Sees limit ending status ↔ ending.exitedBy? (clock.look k) = some status := by
  constructor
  · rintro ⟨i, hpolls, hseen⟩
    by_cases hik : i ≤ k
    · exact ChildEnd.exitedBy?_mono (clock.look_mono hik) hseen
    -- The limit would leave time for a later poll, so the last one has seen the end of the child.
    · have hearly := hpolls k (Nat.not_le.mp hik)
      cases hlast : ending.exitedBy? (clock.look k) with
      | none =>
        have hlate := h.late hlast
        omega
      | some own =>
        have hlook := clock.look_mono (Nat.le_of_lt (Nat.not_le.mp hik))
        rw [ChildEnd.exitedBy?_mono hlook hlast] at hseen
        exact hseen
  · intro hseen
    exact ⟨k, h.polls, hseen⟩

/-- A wait ends after at most as many polls as the limit has room for pauses, and one. It returns the
status of a child whose end one of its polls sees, up to the first that finds that the limit has
passed, and the limit otherwise. In either case the child has ended then and its status has been
collected, and it was killed exactly if it was late and did not end by itself until it was to be
killed. -/
theorem wait_settled (limit : Nat) (clock : PollClock) (ending : ChildEnd) :
    (wait limit clock ending).polls ≤ maxPolls clock.pause limit ∧
    (∀ status, (wait limit clock ending).result = .exited status ↔
      clock.Sees limit ending status) ∧
    ((wait limit clock ending).result = .timedOut limit ↔
      ∀ status, ¬ clock.Sees limit ending status) ∧
    (wait limit clock ending).child.ReapedBy
      (clock.strike ((wait limit clock ending).polls - 1)) ∧
    ((wait limit clock ending).child.killed = true ↔
      (wait limit clock ending).result = .timedOut limit ∧
        ending.exitedBy? (clock.strike ((wait limit clock ending).polls - 1)) = none) := by
  obtain ⟨k, hlast, hwait⟩ := exists_wait_eq limit clock ending
  have hbound := hlast.polls.lt_maxPolls
  have hsees : ∀ status, clock.Sees limit ending status ↔
      ending.exitedBy? (clock.look k) = some status := fun _ => hlast.sees_iff
  rw [hwait]
  cases hseen : ending.exitedBy? (clock.look k) with
  | some own =>
    have hstrike : clock.look k ≤ clock.strike k :=
      Nat.le_trans (clock.look_le_check k) (clock.check_le_strike k)
    have hended := ChildEnd.exitedBy?_mono hstrike hseen
    rw [waitFrom_of_seen limit hseen]
    refine ⟨hbound, ?_, ?_, Process.reapedBy_reap hended, ?_⟩
    · intro status
      rw [hsees, hseen]
      simp
    · simp [hsees, hseen]
    · simp [Process.reap]
  | none =>
    obtain ⟨status, hended⟩ := Process.exitedBy?_kill { ending } (clock.strike k)
    rw [waitFrom_of_late hseen (hlast.late hseen)]
    refine ⟨hbound, ?_, ?_, Process.reapedBy_reap hended, ?_⟩
    · intro status
      simp [hsees, hseen]
    · simp [hsees, hseen]
    · have hkilled := Process.killed_kill ending (clock.strike k)
      simpa [Process.reap] using hkilled

/-- The poll that finds that the limit has passed looks at the child once more before. -/
example : (wait 120 .steady (some (.exited 3, 150))).result = .exited (.exited 3) := by cbv

/-- On the steady clock the limit leaves time for all polls up to `lastPoll`. -/
theorem polls_steady (limit : Nat) :
    PollClock.steady.Polls limit (maxPolls pollStep limit - 1) := by
  intro i hi
  show pollStep * i < limit
  simp only [maxPolls, pollStep] at hi ⊢
  omega

/-- Without a limit a child is waited for until it ends, whenever that is. -/
theorem awaited_of_unlimited (name : String) (run : Run none) :
    ∃ status time, run.ending = some (status, time) ∧ awaited name none run = .ok status := by
  obtain ⟨⟨status, time⟩, hended⟩ := Option.ne_none_iff_exists'.mp (run.ends rfl)
  refine ⟨status, time, hended, ?_⟩
  simp only [awaited, hended, Option.get_some]

/-- Where nothing but the pauses takes time, a child is waited for until the last poll. -/
theorem awaited_eq_ok_iff (name : String) (limit : Nat) (run : Run (some (lastPoll limit)))
    (status : ExitStatus) : awaited name (some limit) run = .ok status ↔
      ∃ time ≤ lastPoll limit, run.ending = some (status, time) := by
  obtain ⟨k, hlast, hwait⟩ := exists_wait_eq limit .steady run.ending
  have hseen : run.ending.exitedBy? (PollClock.steady.look k) = some status ↔
      run.ending.exitedBy? (lastPoll limit) = some status := by
    constructor
    · have hbound : k < maxPolls pollStep limit := hlast.polls.lt_maxPolls
      apply ChildEnd.exitedBy?_mono
      apply Nat.mul_le_mul_left pollStep
      omega
    · intro h
      exact hlast.sees_iff.mp ⟨_, polls_steady limit, h⟩
  rw [← ChildEnd.exitedBy?_eq_some_iff, ← hseen, awaited, hwait]
  cases hend : run.ending.exitedBy? (PollClock.steady.look k) with
  | some own =>
    rw [waitFrom_of_seen limit hend]
    simp
  | none =>
    rw [waitFrom_of_late hend (hlast.late hend)]
    simp

end CodeIndex

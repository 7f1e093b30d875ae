import CodeIndex.Child.Status

/-!
# Waiting with a limit

A child is polled at intervals. Each poll first asks whether the child has ended and then whether
the limit has passed, so a child that has ended by the time of a poll is never taken for one that
is late. A late child is killed and then waited for, so that no wait leaves one behind.

* `ChildEnd.exitedBy?` : the status that a poll at an instant sees;
* `Process` : a child and what has been done to it (`poll`, `kill`, `reap`);
* `PollClock` : the readings of a clock that goes on during the pauses;
* `waitFrom`, `wait` : the polls, until one of them ends the wait.
-/

namespace CodeIndex

/-- The pause between two polls, in milliseconds. -/
def pollStep : Nat := 50

/-- When a child ends and how, counted from its start; `none` if it does not end. Between programs
and those who run them the count is in milliseconds. -/
abbrev ChildEnd := Option (ExitStatus × Nat)

/-- The status of a child that has ended by an instant. -/
def ChildEnd.exitedBy? (child : ChildEnd) (instant : Nat) : Option ExitStatus :=
  match child with
  | some (status, time) => if time ≤ instant then some status else none
  | none => none

/-- The signal that cannot be ignored. -/
def killSignal : Nat := 9

/-- A child that was started: how it ends as things stand, whether it was killed before it ended
by itself, and its status once this has been collected. -/
structure Process where
  ending : ChildEnd
  killed : Bool := false
  collected : Option ExitStatus := none
  deriving Repr, DecidableEq

namespace Process

/-- Waits until the child ends and collects its status. -/
def reap (child : Process) : Process :=
  { child with collected := child.ending.map Prod.fst }

/-- Asks whether the child has ended, and if so collects its status. -/
def poll (child : Process) (instant : Nat) : Option ExitStatus × Process :=
  match child.ending.exitedBy? instant with
  | some status => (some status, child.reap)
  | none => (none, child)

/-- Kills the child, to which nothing happens if it has ended before. -/
def kill (child : Process) (instant : Nat) : Process :=
  match child.ending.exitedBy? instant with
  | some _ => child
  | none => { child with ending := some (.signaled killSignal false, instant), killed := true }

end Process

/-- The readings of a clock from the start of a wait, in ticks of any length: when each poll looks
at the child, when it looks at the limit, and when it would strike. The clock never goes back, and
from one poll to the next it goes on by the pause at least. -/
structure PollClock where
  perMilli : Nat
  look : Nat → Nat
  check : Nat → Nat
  strike : Nat → Nat
  perMilli_pos : 0 < perMilli
  look_le_check : ∀ k, look k ≤ check k
  check_le_strike : ∀ k, check k ≤ strike k
  check_add_le_look : ∀ k, check k + pollStep * perMilli ≤ look (k + 1)

namespace PollClock

/-- The pause between two polls, in ticks. -/
def pause (clock : PollClock) : Nat := pollStep * clock.perMilli

theorem pause_pos (clock : PollClock) : 0 < clock.pause :=
  Nat.mul_pos (by decide) clock.perMilli_pos

theorem check_add_le (clock : PollClock) (k : Nat) :
    clock.check k + clock.pause ≤ clock.check (k + 1) :=
  Nat.le_trans (clock.check_add_le_look k) (clock.look_le_check (k + 1))

/-- The clock in milliseconds on which nothing but the pauses takes time. -/
def steady : PollClock where
  perMilli := 1
  look k := pollStep * k
  check k := pollStep * k
  strike k := pollStep * k
  perMilli_pos := Nat.one_pos
  look_le_check _ := Nat.le_refl _
  check_le_strike _ := Nat.le_refl _
  check_add_le_look _ := Nat.le_refl _

end PollClock

/-- How a wait ends. -/
inductive WaitResult
  | exited (status : ExitStatus)
  | timedOut (limit : Nat)
  deriving Repr, DecidableEq

/-- What a wait comes to: how it ends, after how many polls, and what has become of the child. -/
structure Waited where
  result : WaitResult
  polls : Nat
  child : Process
  deriving Repr, DecidableEq

/-- Polls from the `k`th poll on. Nothing but the clock brings this to an end. -/
def waitFrom (limit : Nat) (clock : PollClock) (child : Process) (k : Nat) : Waited :=
  match child.poll (clock.look k) with
  | (some status, child) => ⟨.exited status, k + 1, child⟩
  | (none, child) =>
    if limit ≤ clock.check k then ⟨.timedOut limit, k + 1, (child.kill (clock.strike k)).reap⟩
    else waitFrom limit clock child (k + 1)
termination_by limit - clock.check k
decreasing_by
  have hpause := clock.pause_pos
  have hnext := clock.check_add_le k
  omega

/-- Waits for a child, whose end and the limit are in ticks of the clock. -/
def wait (limit : Nat) (clock : PollClock) (ending : ChildEnd) : Waited :=
  waitFrom limit clock { ending } 0

/-- The most polls that a limit allows: the pauses that it has room for, the last of them cut
short, and a poll before each of them and after the last. -/
def maxPolls (pause limit : Nat) : Nat := (limit + pause - 1) / pause + 1

/-- The instant of the last poll on the steady clock, until which a child may run. -/
def lastPoll (limit : Nat) : Nat := pollStep * (maxPolls pollStep limit - 1)

end CodeIndex

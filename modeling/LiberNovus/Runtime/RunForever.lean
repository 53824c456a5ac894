import LiberNovus.Runtime.RunOnce

/-! The polling loop. `run_forever` calls `run_once` until `stop` has been called, and sleeps
between two calls. Whatever an execution raises stays in the results of its `gather`, but an
error of the acquisition transaction passes through `run_once` and the loop.

Proved: the loop goes on to its next poll, and ends only behind `stop`, in the runs in which no
acquisition transaction fails, and in no others. -/

namespace LiberNovus.Runtime.RunForever

open Runs
open RunOnce (left left_step exists_step)

variable {J : Type*} [DecidableEq J]

/-- Where the task of `run_forever` is waiting, or how it has ended. -/
inductive Stage (J : Type*) where
  | created
  | acquiring
  | executing (jobs : List J) (state : RunOnce.State J)
  | sleeping
  | ended
  | escaped
  deriving DecidableEq, Repr

structure State (J : Type*) where
  stage : Stage J
  stopping : Bool
  deriving DecidableEq, Repr

/-- `stop` is called, the task runs on, the acquisition transaction is over, one way or the
other, or something happens in the executions of the poll. -/
inductive Event (J : Type*) where
  | stop
  | begin
  | acquired (jobs : List J)
  | acquisitionFailed
  | execution (event : RunOnce.Event J)
  | polled
  | wake
  deriving DecidableEq, Repr

/-- `asyncio.create_task(worker.run_forever())`. -/
def start : State J := ⟨.created, false⟩

/-- `while not self._stopping`, and the first lines of `run_once`: nothing can come between the
two tests of the flag. -/
def loop (stopping : Bool) : Stage J := if stopping then .ended else .acquiring

/-- Behind `await self.run_once()`. -/
def afterPoll (stopping : Bool) : Stage J := if stopping then loop stopping else .sleeping

def step (maxConcurrency : ℤ) (s : State J) : Event J → Option (State J)
  | .stop => some { s with stopping := true }
  | .begin =>
    if s.stage = .created then some { s with stage := loop s.stopping } else none
  | .acquired jobs =>
    if s.stage = .acquiring then
      some { s with stage := .executing jobs (RunOnce.start jobs maxConcurrency) }
    else none
  | .acquisitionFailed =>
    if s.stage = .acquiring then some { s with stage := .escaped } else none
  | .execution event =>
    match s.stage with
    | .executing jobs state =>
      (RunOnce.step jobs maxConcurrency state event).map fun state =>
        { s with stage := .executing jobs state }
    | _ => none
  | .polled =>
    match s.stage with
    | .executing _ (.returned _) => some { s with stage := afterPoll s.stopping }
    | _ => none
  | .wake =>
    if s.stage = .sleeping then some { s with stage := loop s.stopping } else none

variable {maxConcurrency : ℤ}

/-- Unless `stop` is called, the next acquisition comes, whatever happens until then. -/
def NextPoll (maxConcurrency : ℤ) : State J → Prop :=
  Inevitable (step maxConcurrency) (· ≠ .stop) (·.stage = .acquiring)

/-- The task is still in the loop, or has left it behind `stop`. -/
structure Inside (s : State J) : Prop where
  inside : s.stage ≠ .escaped
  stopped : s.stage = .ended → s.stopping = true

/-- No exception has escaped, the loop has not ended before `stop`, and it comes to its next
poll. -/
structure Alive (maxConcurrency : ℤ) (s : State J) : Prop extends Inside s where
  next : s.stopping = false → NextPoll maxConcurrency s

omit [DecidableEq J] in
theorem inside_loop (stopping : Bool) : Inside (⟨loop stopping, stopping⟩ : State J) := by
  cases stopping <;> exact ⟨by simp [loop], by simp [loop]⟩

omit [DecidableEq J] in
theorem inside_afterPoll (stopping : Bool) : Inside (⟨afterPoll stopping, stopping⟩ : State J) := by
  cases stopping <;> exact ⟨by simp [afterPoll, loop], by simp [afterPoll, loop]⟩

/-- What an event leads to, when it is not the failure of an acquisition. -/
theorem inside_step {s t : State J} {e : Event J} (hs : Inside s) (he : e ≠ .acquisitionFailed)
    (h : step maxConcurrency s e = some t) : Inside t := by
  obtain ⟨stage, stopping⟩ := s
  cases e with
  | stop => cases h; exact ⟨hs.inside, fun _ => rfl⟩
  | begin =>
    simp only [step, Option.ite_none_right_eq_some, Option.some.injEq] at h
    exact h.2 ▸ inside_loop stopping
  | acquired jobs =>
    simp only [step, Option.ite_none_right_eq_some, Option.some.injEq] at h
    obtain ⟨-, rfl⟩ := h
    exact ⟨nofun, nofun⟩
  | acquisitionFailed => exact absurd rfl he
  | execution event =>
    cases stage with
    | executing jobs state =>
      obtain ⟨state', -, rfl⟩ := Option.map_eq_some_iff.mp h
      exact ⟨nofun, nofun⟩
    | _ => cases h
  | polled =>
    simp only [step] at h
    split at h
    · cases h; exact inside_afterPoll stopping
    · cases h
  | wake =>
    simp only [step, Option.ite_none_right_eq_some, Option.some.injEq] at h
    exact h.2 ▸ inside_loop stopping

/-! ### The next poll -/

/-- A bound for the events before the next acquisition. -/
def wait (maxConcurrency : ℤ) : Stage J → ℕ
  | .created | .sleeping => 1
  | .executing jobs state => left jobs maxConcurrency state + 2
  | .acquiring | .ended | .escaped => 0

/-- Until then something can happen, -/
theorem enabled {s : State J} (hs : Inside s) (hstop : s.stopping = false)
    (hne : s.stage ≠ .acquiring) : ∃ e t, e ≠ .stop ∧ step maxConcurrency s e = some t := by
  obtain ⟨stage, stopping⟩ := s
  cases stage with
  | created => exact ⟨.begin, _, nofun, by rw [step, if_pos rfl]⟩
  | acquiring => exact absurd rfl hne
  | executing jobs state =>
    cases state with
    | returned n => exact ⟨.polled, _, nofun, rfl⟩
    | gathering offset batch processed =>
      obtain ⟨e, state', hstep⟩ : ∃ e state', RunOnce.step jobs maxConcurrency
        (.gathering offset batch processed) e = some state' := exists_step offset batch processed
      exact ⟨.execution e, ⟨.executing jobs state', stopping⟩, nofun, by
        simp only [step, hstep, Option.map_some]⟩
  | sleeping => exact ⟨.wake, _, nofun, by rw [step, if_pos rfl]⟩
  | ended => exact absurd (hs.stopped rfl) (by rw [hstop]; nofun)
  | escaped => exact absurd rfl hs.inside

/-- and whatever does brings it nearer. -/
theorem wait_step {s t : State J} {e : Event J} (he : e ≠ .stop) (hstop : s.stopping = false)
    (hne : s.stage ≠ .acquiring) (h : step maxConcurrency s e = some t) :
    t.stopping = false ∧ wait maxConcurrency t.stage < wait maxConcurrency s.stage := by
  obtain ⟨stage, stopping⟩ := s
  obtain rfl : stopping = false := hstop
  cases e with
  | stop => exact absurd rfl he
  | begin =>
    simp only [step, Option.ite_none_right_eq_some, Option.some.injEq] at h
    obtain ⟨rfl, rfl⟩ := h
    exact ⟨rfl, Nat.zero_lt_one⟩
  | acquired jobs =>
    simp only [step, Option.ite_none_right_eq_some] at h
    exact absurd h.1 hne
  | acquisitionFailed =>
    simp only [step, Option.ite_none_right_eq_some] at h
    exact absurd h.1 hne
  | execution event =>
    cases stage with
    | executing jobs state =>
      obtain ⟨state', hstep, rfl⟩ := Option.map_eq_some_iff.mp h
      exact ⟨rfl, Nat.add_lt_add_right (left_step hstep) 2⟩
    | _ => cases h
  | polled =>
    simp only [step] at h
    split at h
    · cases h; exact ⟨rfl, Nat.one_lt_two⟩
    · cases h
  | wake =>
    simp only [step, Option.ite_none_right_eq_some, Option.some.injEq] at h
    obtain ⟨rfl, rfl⟩ := h
    exact ⟨rfl, Nat.zero_lt_one⟩

theorem nextPoll {s : State J} (hs : Inside s) (hstop : s.stopping = false) :
    NextPoll maxConcurrency s := by
  refine inevitable_of_measure (I := fun s => Inside s ∧ s.stopping = false)
    (fun s => wait maxConcurrency s.stage) ?_ ?_ ⟨hs, hstop⟩
  · rintro s ⟨hs, hstop⟩ hne
    exact enabled hs hstop hne
  · rintro s e t ⟨hs, hstop⟩ hne he ht
    obtain ⟨htstop, hlt⟩ := wait_step he hstop hne ht
    refine ⟨⟨inside_step hs ?_ ht, htstop⟩, hlt⟩
    rintro rfl
    exact hne (Option.ite_none_right_eq_some.mp ht).1

theorem Inside.alive {s : State J} (hs : Inside s) : Alive maxConcurrency s :=
  ⟨hs, nextPoll hs⟩

/-! ### Whole runs -/

/-- The loop survives whatever its executions raise. It stays alive in every state of a run exactly
when no acquisition transaction of the run fails. -/
theorem alive_iff (maxConcurrency : ℤ) (es : List (Event J)) :
    Always (step maxConcurrency) (Alive maxConcurrency) start es ↔
      Guarded (step maxConcurrency) (fun _ e => e ≠ .acquisitionFailed) start es := by
  have hstart : Inside (start : State J) := ⟨nofun, nofun⟩
  constructor
  · refine guarded_of_always (I := fun _ => True) (fun _ _ _ _ _ => trivial) ?_ trivial
    rintro s e t - - ht hAlive rfl
    simp only [step, Option.ite_none_right_eq_some, Option.some.injEq] at ht
    exact hAlive.inside (ht.2 ▸ rfl)
  · intro hg
    refine Always.mono (fun s hs => hs.alive) (always_of_guarded (I := Inside) ?_ hstart hg)
    exact fun s e t hs he ht => inside_step hs he ht

/-- The first acquisition of a worker fails, and nobody polls any more. -/
theorem acquisition_ends_worker :
    ¬ Always (step 1) (Alive 1) (start : State ℕ) [.begin, .acquisitionFailed] := by
  rintro ⟨-, h⟩
  have hAlive := ((h _ rfl).2 _ rfl).head
  exact hAlive.inside rfl

end LiberNovus.Runtime.RunForever

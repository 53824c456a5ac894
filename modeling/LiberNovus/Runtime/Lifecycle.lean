import Mathlib.Logic.Relation
import LiberNovus.Runtime.Acquisition
import LiberNovus.Runtime.Queue

/-! The life of a job in the queue. A call of the queue service moves each row along by
recovering, acquiring or finishing it, and adds new rows.

Proved: in every run the columns of a row agree with its status and with the number of its
acquisitions, the time of the first one is kept, a row that is completed or failed is never
changed again, and a finishing call on any row that is not running is refused. -/

namespace LiberNovus.Runtime

open Rows Runs

/-- What one part of a call may do to a row. -/
inductive AnalysisJob.Moves : AnalysisJob → AnalysisJob → Prop
  | recovers {job : AnalysisJob} (h : job.status = .running) (now : Time) (timeout : ℤ) :
      Moves job (job.recovered now timeout)
  | acquires {job : AnalysisJob} (h : job.status = .queued) (lockedBy : String) (now : Time) :
      Moves job (job.acquired lockedBy now)
  | finishes {job : AnalysisJob} (h : job.status = .running) (fin : Queue.Finish) :
      Moves job (fin.write job)

/-- The row is moved along any number of times. -/
abbrev AnalysisJob.Evolves : AnalysisJob → AnalysisJob → Prop :=
  Relation.ReflTransGen AnalysisJob.Moves

/-- What the columns of a row say about each other, after this many acquisitions. -/
structure AnalysisJob.Lifecycle (job : AnalysisJob) (acquisitions : ℕ) : Prop where
  lockedBy : job.lockedBy ≠ none ↔ job.status = .running
  lockedAt : job.lockedAt ≠ none ↔ job.status = .running
  completedAt : job.completedAt ≠ none ↔ job.status = .completed ∨ job.status = .failed
  attempts : job.attempts = acquisitions
  startedAt : job.startedAt ≠ none ↔ 0 < job.attempts
  maxAttempts : 1 ≤ job.maxAttempts
  threadId : job.threadId ≠ none → job.status = .completed
  succeeded : job.status = .completed →
    job.retryable = false ∧ job.lastErrorClass = none ∧ job.lastErrorMessage = none
  retried : job.status = .queued → 0 < job.attempts →
    job.retryable = true ∧ job.lastErrorClass ≠ none ∧ job.lastErrorMessage ≠ none

/-- The row has come to an end. -/
def AnalysisJob.Ended (job : AnalysisJob) : Prop := job.status = .completed ∨ job.status = .failed

/-! ### One row -/

section Row

variable {job after : AnalysisJob} {n : ℕ}

/-- The lock of a running job goes stale. -/
theorem AnalysisJob.Lifecycle.recoverable (h : job.Lifecycle n) (hrun : job.status = .running) :
    ∃ lockedAt, ∀ staleBefore, lockedAt ≤ staleBefore → job.Stale staleBefore := by
  obtain ⟨lockedAt, ha⟩ := Option.ne_none_iff_exists'.mp (h.lockedAt.mpr hrun)
  exact ⟨lockedAt, fun _ hle => ⟨hrun, lockedAt, ha, hle⟩⟩

theorem lifecycle_newJob (id sessionId : Uuid) (provider model : String) (maxAttempts : ℤ)
    (mode : AnalysisMode) (dreamId : Option ℕ) (now : Time) :
    (newJob id sessionId provider model maxAttempts mode dreamId now).Lifecycle 0 := by
  constructor <;> simp [newJob]

theorem AnalysisJob.Lifecycle.moves (h : job.Lifecycle n) (hm : job.Moves after) :
    ∃ n, after.Lifecycle n := by
  have hattempts := h.attempts
  cases hm with
  | recovers hs now timeout =>
    have hend := h.completedAt
    have hthread := h.threadId
    have hstart := h.startedAt
    refine ⟨n, ?_⟩
    constructor <;> simp_all [AnalysisJob.recovered, h.maxAttempts]
  | acquires hs lockedBy now =>
    have hend := h.completedAt
    have hthread := h.threadId
    refine ⟨n + 1, ?_⟩
    constructor <;> simp_all [AnalysisJob.acquired, h.maxAttempts]
  | finishes hs fin =>
    have hend := h.completedAt
    have hthread := h.threadId
    have hstart := h.startedAt
    refine ⟨n, ?_⟩
    cases fin <;> constructor <;>
      simp_all [Queue.Finish.write, AnalysisJob.completed, AnalysisJob.failed,
        AnalysisJob.requeued, h.maxAttempts]

theorem AnalysisJob.Lifecycle.evolves (h : job.Lifecycle n) (he : job.Evolves after) :
    ∃ n, after.Lifecycle n := by
  induction he with
  | refl => exact ⟨n, h⟩
  | tail _ hm ih =>
    obtain ⟨n, h⟩ := ih
    exact h.moves hm

/-- A row that has ended stays as it is. -/
theorem eq_of_ended (hend : job.Ended) (he : job.Evolves after) : after = job := by
  induction he with
  | refl => rfl
  | tail _ hm ih =>
    subst ih
    cases hm with
    | recovers hs | finishes hs | acquires hs => simp [AnalysisJob.Ended, hs] at hend

/-- The time of the first acquisition is kept. -/
theorem startedAt_of_evolves {first : Time} (hfirst : job.startedAt = some first)
    (he : job.Evolves after) : after.startedAt = some first := by
  induction he with
  | refl => exact hfirst
  | tail _ hm ih =>
    cases hm with
    | recovers => exact ih
    | acquires => simp [AnalysisJob.acquired, ih]
    | finishes _ fin => cases fin <;> exact ih

end Row

/-! ### One call -/

namespace Queue

section Rows

variable {configured : ℤ} {s t : Queue} {call : Call} {rows : List AnalysisJob}
  {g : AnalysisJob → AnalysisJob}

theorem evolves_recoverStale (job : AnalysisJob) (now : Time) (timeout : ℤ) :
    job.Evolves (job.recoverStale now timeout) := by
  unfold AnalysisJob.recoverStale
  split
  · next hs => exact .single (.recovers hs.1 now timeout)
  · exact .refl

/-- An acquisition moves every row along. -/
theorem acquire_rows (db : List AnalysisJob) (limit : ℤ) (lockedBy : String) (now : Time)
    (stale : Option ℤ) (configured : ℤ) :
    ∃ g : AnalysisJob → AnalysisJob, (∀ job, (g job).id = job.id) ∧
      (∀ job : AnalysisJob, job.Evolves (g job)) ∧
      (acquireAvailableJobs db limit lockedBy now stale configured fun _ => false).2 =
        db.map g := by
  unfold acquireAvailableJobs
  split
  · exact ⟨id, fun _ => rfl, fun _ => .refl, (List.map_id _).symm⟩
  · set timeout := staleSeconds stale configured
    rw [recoverStaleRunningJobs_eq, markAcquired]
    set jobs := selectAvailable (db.map (AnalysisJob.recoverStale now timeout)) limit now
      fun _ => false with hjobs
    refine ⟨fun job => if job.recoverStale now timeout ∈ jobs then
      (job.recoverStale now timeout).acquired lockedBy now else job.recoverStale now timeout,
      fun job => ?_, fun job => ?_, ?_⟩
    · dsimp only
      split <;> simp
    · dsimp only
      split
      · next hsel =>
        exact (evolves_recoverStale job now timeout).tail
          (.acquires (mem_selectAvailable hsel).2.1.1 lockedBy now)
      · exact evolves_recoverStale job now timeout
    · rw [List.map_map]
      rfl

/-- A finishing call moves every row along. -/
theorem finish_rows (s : Queue) (hu : DistinctKeys s.jobs) (jobId : Uuid) (fin : Finish) :
    ∃ g : AnalysisJob → AnalysisJob, (∀ job, (g job).id = job.id) ∧
      (∀ job ∈ s.jobs, job.Evolves (g job)) ∧ (s.finish jobId fin).jobs = s.jobs.map g := by
  rcases finish_cases s jobId fin with he | ⟨job, hg, hrun, he⟩
  · exact ⟨id, fun _ => rfl, fun _ _ => .refl, by rw [he, List.map_id]⟩
  · refine ⟨fun r => if key r = jobId then fin.write r else r, fun r => ?_, fun r hr => ?_, ?_⟩
    · dsimp only
      split
      · exact write_id fin r
      · rfl
    · dsimp only
      split
      · next hk =>
        obtain rfl : r = job := by
          have hr' := get_of_mem hu hr
          rw [hk, hg] at hr'
          exact (Option.some.inj hr').symm
        exact .single (.finishes hrun fin)
      · exact .refl
    · rw [he]
      rfl

/-- What one call does to the rows: it moves them along, and may add a new one. -/
theorem step_rows (hu : DistinctKeys s.jobs) (ht : step configured s call = some t) :
    ∃ (g : AnalysisJob → AnalysisJob) (new : List AnalysisJob), (∀ job, (g job).id = job.id) ∧
      (∀ job ∈ s.jobs, job.Evolves (g job)) ∧ (∀ job ∈ new, job.Lifecycle 0) ∧
      t.jobs = s.jobs.map g ++ new := by
  cases call with
  | createJob id sessionId provider model maxAttempts mode dreamId now =>
    simp only [step, Option.ite_none_right_eq_some, Option.some.injEq] at ht
    obtain ⟨-, rfl⟩ := ht
    refine ⟨fun job => job, [newJob id sessionId provider model maxAttempts mode dreamId now],
      fun _ => rfl, fun _ _ => .refl, ?_, by simp⟩
    rintro job hj
    obtain rfl := List.mem_singleton.mp hj
    exact lifecycle_newJob _ _ _ _ _ _ _ _
  | acquire limit lockedBy now stale =>
    simp only [step, Option.some.injEq] at ht
    subst ht
    obtain ⟨g, hid, hev, he⟩ := acquire_rows s.jobs limit lockedBy now stale configured
    exact ⟨g, [], hid, fun job _ => hev job, by simp, by simpa using he⟩
  | finish jobId fin =>
    simp only [step, Option.some.injEq] at ht
    subst ht
    obtain ⟨g, hid, hev, he⟩ := finish_rows s hu jobId fin
    exact ⟨g, [], hid, hev, by simp, by simpa using he⟩
  | retry copy errorClass errorMessage now =>
    simp only [step, Option.ite_none_right_eq_some, Option.some.injEq] at ht
    obtain ⟨-, rfl⟩ := ht
    obtain ⟨g, hid, hev, he⟩ := finish_rows s hu copy.id
      (handleRetryableFailure copy errorClass errorMessage now)
    exact ⟨g, [], hid, hev, by simp, by simpa using he⟩

end Rows

/-! ### Runs -/

/-- The columns of every row agree with its status and with its acquisitions. -/
def Lifecycles (s : Queue) : Prop := ∀ job ∈ s.jobs, job.Lifecycle (s.timesHanded job.id)

/-- The call keeps every row, the time of its first acquisition, and all of it once it has
ended. -/
def KeepsHistory (s : Queue) (_ : Call) (t : Queue) : Prop :=
  ∀ job ∈ s.jobs, ∃ after, get t.jobs job.id = some after ∧
    (∀ first, job.startedAt = some first → after.startedAt = some first) ∧
    (job.Ended → after = job)

/-- A finishing call on a row that is missing or not running raises and changes nothing. -/
def Refuses (s : Queue) : Prop :=
  ∀ (jobId : Uuid) (fin : Finish), (∀ job, get s.jobs jobId = some job → job.status ≠ .running) →
    (∃ e : InvalidJobTransitionError, fin.call s.jobs jobId = .error e) ∧ s.finish jobId fin = s

theorem refuses (s : Queue) : s.Refuses := by
  intro jobId fin h
  have herror : ∃ e : InvalidJobTransitionError, fin.call s.jobs jobId = .error e := by
    cases hcall : fin.call s.jobs jobId with
    | error e => exact ⟨e, rfl⟩
    | ok r =>
      rw [Finish.call_eq, transition_ok] at hcall
      obtain ⟨job, hg, hrun, -⟩ := hcall
      exact absurd hrun (h job hg)
  refine ⟨herror, ?_⟩
  obtain ⟨e, he⟩ := herror
  rw [finish, he]

section Steps

variable {configured : ℤ} {s t : Queue} {call : Call}

/-- Every row agrees with itself; the number of its acquisitions is its attempt count. -/
theorem lifecycles_of_some (hw : s.Wf) (h : ∀ job ∈ s.jobs, ∃ n, job.Lifecycle n) :
    s.Lifecycles := by
  intro job hj
  obtain ⟨n, hn⟩ := h job hj
  have hcount := hw.counted job hj
  rw [hn.attempts] at hcount
  exact (by exact_mod_cast hcount : n = s.timesHanded job.id) ▸ hn

theorem lifecycles_step (hw : s.Wf) (h : s.Lifecycles) (ht : step configured s call = some t) :
    t.Lifecycles := by
  refine lifecycles_of_some (wf_step hw ht) fun job hj => ?_
  obtain ⟨g, new, hid, hev, hnew, he⟩ := step_rows hw.unique ht
  rw [he] at hj
  rcases List.mem_append.mp hj with hj | hj
  · obtain ⟨before, hb, rfl⟩ := List.mem_map.mp hj
    exact (h before hb).evolves (hev before hb)
  · exact ⟨0, hnew job hj⟩

theorem keepsHistory_step (hw : s.Wf) (ht : step configured s call = some t) :
    KeepsHistory s call t := by
  intro job hj
  obtain ⟨g, new, hid, hev, -, he⟩ := step_rows hw.unique ht
  refine ⟨g job, ?_, fun first hfirst => startedAt_of_evolves hfirst (hev job hj), fun hend =>
    eq_of_ended hend (hev job hj)⟩
  rw [he, get_append, get_map hid, ← key_job, get_of_mem hw.unique hj]
  rfl

end Steps

/-- In every run, whatever is called with whatever arguments and at whatever times. -/
theorem job_lifecycle (configured : ℤ) (calls : List Call) :
    Always (step configured) Lifecycles empty calls ∧
      AlwaysStep (step configured) KeepsHistory empty calls ∧
      Always (step configured) Refuses empty calls := by
  have hinv : Always (step configured) (fun s => s.Wf ∧ s.Lifecycles) empty calls :=
    always_of_step (fun _ _ _ h ht => ⟨wf_step h.1 ht, lifecycles_step h.1 h.2 ht⟩)
      ⟨wf_empty, by simp [Lifecycles, empty]⟩ calls
  refine ⟨hinv.mono fun _ h => h.2, ?_, hinv.mono fun s _ => refuses s⟩
  exact alwaysStep_of_step (fun _ _ _ hw ht => ⟨wf_step hw ht, keepsHistory_step hw ht⟩) wf_empty
    calls

end Queue

end LiberNovus.Runtime

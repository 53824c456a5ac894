import Mathlib.Data.List.Sort
import LiberNovus.Foundation.Rows

/-! The job queue table and its service, one call at a time: creation, acquisition
with the recovery of stale locks, and the three transitions that end an execution.
Each function returns the new table, with the row or rows the code returns.
Timestamps are microseconds; the naive and the aware form of one instant are the
same number. -/

namespace LiberNovus

/-- A `uuid4` identifier, of which only equality and the order of the column are used. -/
abbrev Uuid := ℕ

/-- A point in time, in microseconds. -/
abbrev Time := ℤ

/-- `timedelta(seconds = n)`. -/
def seconds (n : ℤ) : Time := n * 1000000

/-- The analysis mode a caller asks for. -/
inductive AnalysisMode where
  | auto | new | continue
  deriving DecidableEq, Repr

namespace Runtime

open Rows

inductive AnalysisJobStatus where
  | queued | running | completed | failed | cancelled
  deriving DecidableEq, Repr

def AnalysisJobStatus.value : AnalysisJobStatus → String
  | .queued => "queued"
  | .running => "running"
  | .completed => "completed"
  | .failed => "failed"
  | .cancelled => "cancelled"

/-- A row of `analysis_jobs`. -/
structure AnalysisJob where
  id : Uuid
  sessionId : Uuid
  dreamId : Option ℕ
  threadId : Option Uuid
  status : AnalysisJobStatus
  provider : String
  model : String
  mode : AnalysisMode
  attempts : ℤ
  maxAttempts : ℤ
  lastErrorClass : Option String
  lastErrorMessage : Option String
  retryable : Bool
  createdAt : Time
  updatedAt : Time
  availableAfter : Time
  startedAt : Option Time
  completedAt : Option Time
  lockedBy : Option String
  lockedAt : Option Time
  deriving DecidableEq, Repr

instance : Keyed AnalysisJob Uuid := ⟨AnalysisJob.id⟩

@[simp] theorem key_job (job : AnalysisJob) : key job = job.id := rfl

/-- The two ways `InvalidJobTransitionError` is raised; `verb` is the transition
that was refused. -/
inductive InvalidJobTransitionError where
  | notFound (jobId : Uuid)
  | cannot (verb : String) (status : AnalysisJobStatus)
  deriving DecidableEq, Repr

def InvalidJobTransitionError.message : InvalidJobTransitionError → String
  | .notFound jobId => s!"Analysis job {jobId} not found"
  | .cannot verb status => "Cannot " ++ verb ++ " job in status " ++ status.value

/-! ### Creation -/

/-- `create_job`: the new row, queued and available at once. -/
def newJob (id sessionId : Uuid) (provider model : String) (maxAttempts : ℤ) (mode : AnalysisMode)
    (dreamId : Option ℕ) (now : Time) : AnalysisJob where
  id := id
  sessionId := sessionId
  dreamId := dreamId
  threadId := none
  status := .queued
  provider := provider
  model := model
  mode := mode
  attempts := 0
  maxAttempts := max 1 maxAttempts
  lastErrorClass := none
  lastErrorMessage := none
  retryable := false
  createdAt := now
  updatedAt := now
  availableAfter := now
  startedAt := none
  completedAt := none
  lockedBy := none
  lockedAt := none

/-! ### Acquisition -/

/-- The condition of `_recover_stale_running_jobs`. -/
def AnalysisJob.Stale (staleBefore : Time) (job : AnalysisJob) : Prop :=
  job.status = .running ∧ ∃ at_ ∈ job.lockedAt, at_ ≤ staleBefore

instance (staleBefore : Time) (job : AnalysisJob) : Decidable (job.Stale staleBefore) :=
  inferInstanceAs (Decidable (_ ∧ _))

def AnalysisJob.recovered (acquiredAt : Time) (staleTimeoutSeconds : ℤ) (job : AnalysisJob) :
    AnalysisJob :=
  { job with
    status := .queued
    availableAfter := acquiredAt
    updatedAt := acquiredAt
    retryable := true
    lastErrorClass := some "StaleRunningRecovery"
    lastErrorMessage :=
      some s!"Recovered stale running job after {staleTimeoutSeconds}s lock timeout"
    lockedBy := none
    lockedAt := none }

/-- `_recover_stale_running_jobs`; rows that `locked` holds of are skipped. -/
def recoverStaleRunningJobs (db : List AnalysisJob) (acquiredAt : Time) (staleTimeoutSeconds : ℤ)
    (locked : Uuid → Bool) : List AnalysisJob :=
  db.map fun job =>
    if job.Stale (acquiredAt - seconds staleTimeoutSeconds) ∧ locked job.id = false then
      job.recovered acquiredAt staleTimeoutSeconds
    else job

/-- `ORDER BY available_after, created_at, id`. -/
def AnalysisJob.Precedes (a b : AnalysisJob) : Prop :=
  a.availableAfter < b.availableAfter ∨ a.availableAfter = b.availableAfter ∧
    (a.createdAt < b.createdAt ∨ a.createdAt = b.createdAt ∧ a.id ≤ b.id)

instance : DecidableRel AnalysisJob.Precedes := fun _ _ => inferInstanceAs (Decidable (_ ∨ _))

/-- A job that `acquire_available_jobs` may select. -/
def AnalysisJob.Available (acquiredAt : Time) (job : AnalysisJob) : Prop :=
  job.status = .queued ∧ job.availableAfter ≤ acquiredAt

instance (acquiredAt : Time) (job : AnalysisJob) : Decidable (job.Available acquiredAt) :=
  inferInstanceAs (Decidable (_ ∧ _))

/-- `SELECT … ORDER BY … LIMIT limit FOR UPDATE SKIP LOCKED` on the queued jobs. -/
def selectAvailable (db : List AnalysisJob) (limit : ℤ) (acquiredAt : Time)
    (locked : Uuid → Bool) : List AnalysisJob :=
  ((db.filter fun job => job.Available acquiredAt ∧ locked job.id = false).insertionSort
    AnalysisJob.Precedes).take limit.toNat

def AnalysisJob.acquired (lockedBy : String) (acquiredAt : Time) (job : AnalysisJob) :
    AnalysisJob :=
  { job with
    status := .running
    attempts := job.attempts + 1
    updatedAt := acquiredAt
    lockedBy := some lockedBy
    lockedAt := some acquiredAt
    startedAt := job.startedAt.or (some acquiredAt) }

/-- `stale_timeout_seconds or settings.ANALYSIS_JOB_STALE_TIMEOUT_SECONDS`. -/
def staleSeconds (staleTimeoutSeconds : Option ℤ) (configured : ℤ) : ℤ :=
  match staleTimeoutSeconds with
  | some s => if s = 0 then configured else s
  | none => configured

/-- The second half of `acquire_available_jobs`: select the queued jobs and mark
them running. Returns the acquired rows and the table. -/
def markAcquired (db : List AnalysisJob) (limit : ℤ) (lockedBy : String) (acquiredAt : Time)
    (locked : Uuid → Bool) : List AnalysisJob × List AnalysisJob :=
  let jobs := selectAvailable db limit acquiredAt locked
  (jobs.map (AnalysisJob.acquired lockedBy acquiredAt),
    db.map fun job => if job ∈ jobs then job.acquired lockedBy acquiredAt else job)

/-- `acquire_available_jobs`. Returns the acquired rows and the table. -/
def acquireAvailableJobs (db : List AnalysisJob) (limit : ℤ) (lockedBy : String) (now : Time)
    (staleTimeoutSeconds : Option ℤ) (configured : ℤ) (locked : Uuid → Bool) :
    List AnalysisJob × List AnalysisJob :=
  if limit ≤ 0 then ([], db)
  else
    markAcquired
      (recoverStaleRunningJobs db now (staleSeconds staleTimeoutSeconds configured) locked)
      limit lockedBy now locked

/-! ### Transitions out of `running` -/

def requireJob (db : List AnalysisJob) (jobId : Uuid) :
    Except InvalidJobTransitionError AnalysisJob :=
  match get db jobId with
  | none => .error (.notFound jobId)
  | some job => .ok job

/-- The shared body of the three transitions: load the row, refuse it unless it is
running, write the changed row. -/
def transition (verb : String) (f : AnalysisJob → AnalysisJob) (db : List AnalysisJob)
    (jobId : Uuid) : Except InvalidJobTransitionError (AnalysisJob × List AnalysisJob) := do
  let job ← requireJob db jobId
  if job.status = .running then .ok (f job, modify db jobId f)
  else .error (.cannot verb job.status)

def AnalysisJob.completed (threadId : Option Uuid) (completedAt : Time) (job : AnalysisJob) :
    AnalysisJob :=
  { job with
    status := .completed
    threadId := threadId
    completedAt := some completedAt
    updatedAt := completedAt
    retryable := false
    lastErrorClass := none
    lastErrorMessage := none
    lockedBy := none
    lockedAt := none }

def AnalysisJob.failed (errorClass errorMessage : String) (retryable : Bool) (completedAt : Time)
    (job : AnalysisJob) : AnalysisJob :=
  { job with
    status := .failed
    completedAt := some completedAt
    updatedAt := completedAt
    retryable := retryable
    lastErrorClass := some errorClass
    lastErrorMessage := some errorMessage
    lockedBy := none
    lockedAt := none }

def AnalysisJob.requeued (availableAfter : Time) (errorClass errorMessage : String)
    (updatedAt : Time) (job : AnalysisJob) : AnalysisJob :=
  { job with
    status := .queued
    availableAfter := availableAfter
    updatedAt := updatedAt
    retryable := true
    lastErrorClass := some errorClass
    lastErrorMessage := some errorMessage
    lockedBy := none
    lockedAt := none }

def markCompleted (db : List AnalysisJob) (jobId : Uuid) (threadId : Option Uuid) (now : Time) :=
  transition "complete" (AnalysisJob.completed threadId now) db jobId

def markFailed (db : List AnalysisJob) (jobId : Uuid) (errorClass errorMessage : String)
    (retryable : Bool) (now : Time) :=
  transition "fail" (AnalysisJob.failed errorClass errorMessage retryable now) db jobId

def requeue (db : List AnalysisJob) (jobId : Uuid) (availableAfter : Time)
    (errorClass errorMessage : String) (now : Time) :=
  transition "requeue" (AnalysisJob.requeued availableAfter errorClass errorMessage now) db jobId

/-! ### What the calls do to a row -/

@[simp] theorem recovered_id (t : Time) (n : ℤ) (job : AnalysisJob) : (job.recovered t n).id = job.id :=
  rfl

@[simp] theorem acquired_id (by_ : String) (t : Time) (job : AnalysisJob) :
    (job.acquired by_ t).id = job.id := rfl

@[simp] theorem completed_id (th : Option Uuid) (t : Time) (job : AnalysisJob) :
    (job.completed th t).id = job.id := rfl

@[simp] theorem failed_id (c m : String) (b : Bool) (t : Time) (job : AnalysisJob) :
    (job.failed c m b t).id = job.id := rfl

@[simp] theorem requeued_id (a : Time) (c m : String) (t : Time) (job : AnalysisJob) :
    (job.requeued a c m t).id = job.id := rfl

theorem mem_selectAvailable {db : List AnalysisJob} {limit : ℤ} {t : Time} {locked : Uuid → Bool}
    {job : AnalysisJob} (h : job ∈ selectAvailable db limit t locked) :
    job ∈ db ∧ job.Available t ∧ locked job.id = false := by
  have hs := (List.perm_insertionSort _ _).subset (List.mem_of_mem_take h)
  simpa using hs

theorem selectAvailable_distinctKeys {db : List AnalysisJob} (hu : DistinctKeys db) (limit : ℤ) (t : Time)
    (locked : Uuid → Bool) : DistinctKeys (selectAvailable db limit t locked) := by
  have hf : DistinctKeys (db.filter fun job => job.Available t ∧ locked job.id = false) :=
    hu.sublist (List.filter_sublist.map _)
  have hs : DistinctKeys ((db.filter fun job => job.Available t ∧ locked job.id = false).insertionSort
      AnalysisJob.Precedes) := ((List.perm_insertionSort _ _).map _).nodup_iff.mpr hf
  exact hs.sublist ((List.take_sublist _ _).map _)

/-- A transition succeeds exactly on a running row, and then rewrites that row alone. -/
theorem transition_ok {verb : String} {f : AnalysisJob → AnalysisJob} {db : List AnalysisJob}
    {jobId : Uuid} {r : AnalysisJob × List AnalysisJob} :
    transition verb f db jobId = .ok r ↔
      ∃ job, get db jobId = some job ∧ job.status = .running ∧ r = (f job, modify db jobId f) := by
  unfold transition requireJob
  cases hg : get db jobId with
  | none => simp [bind, Except.bind]
  | some job =>
    by_cases hs : job.status = .running
    · simp [bind, Except.bind, hs, eq_comm]
    · simp [bind, Except.bind, hs]

/-- A refused transition names the job that is missing or the status it is in. -/
theorem transition_error {verb : String} {f : AnalysisJob → AnalysisJob} {db : List AnalysisJob}
    {jobId : Uuid} {e : InvalidJobTransitionError} :
    transition verb f db jobId = .error e ↔
      (get db jobId = none ∧ e = .notFound jobId) ∨
        ∃ job, get db jobId = some job ∧ job.status ≠ .running ∧ e = .cannot verb job.status := by
  unfold transition requireJob
  cases hg : get db jobId with
  | none => simp [bind, Except.bind, eq_comm]
  | some job =>
    by_cases hs : job.status = .running
    · simp [bind, Except.bind, hs]
    · simpa [bind, Except.bind, hs] using eq_comm

end Runtime

end LiberNovus

import LiberNovus.Runtime.Queue
import LiberNovus.Analysis.Transaction

/-! Any number of `AnalysisRuntimeWorker`s on one database, statement by statement
under READ COMMITTED. A poll is one call of `run_once`: the acquisition transaction
with the recovery of stale locks, and then the acquired batch, executed in chunks. An
execution is one call of `_execute`: its transaction assembles and persists the
analysis, and ends with a status `SELECT` and an `UPDATE` of the job row.

A worker that dies stops polling and has its transactions rolled back. -/

namespace LiberNovus.Runtime

open Rows ReadCommitted Runs Analysis Session
open Queue (Finish handleRetryableFailure)

/-- `analysis_jobs` has no partial unique index. -/
instance : Indexed AnalysisJob Empty := ⟨fun _ => none⟩

structure Worker where
  workerId : String
  batchSize : ℤ
  maxConcurrency : ℤ
  staleTimeoutSeconds : ℤ
  deriving DecidableEq, Repr

def Worker.limit (worker : Worker) : ℤ := max 1 worker.batchSize

def Worker.chunk (worker : Worker) : ℕ := (max 1 worker.maxConcurrency).toNat

/-- A transaction, of a poll or of an execution. -/
inductive TxId where
  | poll (p : ℕ)
  | exec (a : ℕ)
  deriving DecidableEq, Repr

/-- How far a call of `run_once` has got. While it runs a batch, `active` are the
executions it has started in the current chunk. -/
inductive PollStage where
  | opened
  | recovered
  | selected (jobs : List AnalysisJob)
  | running (active : List ℕ) (chunk rest : List AnalysisJob)
  deriving DecidableEq

structure Poll where
  id : ℕ
  worker : Worker
  acquiredAt : Time
  stage : PollStage
  deriving DecidableEq

/-- How far a call of `_execute` has got. `thinking` is everything before the first
statement on the threads, `checked` has read the job row and found it running,
`returned` has run the `UPDATE` and only has to commit; `raised` is the
`InvalidJobTransitionError`. -/
inductive ExecStage where
  | thinking
  | analysing (x : Transaction)
  | finishing (fin : Finish)
  | checked (fin : Finish) (loaded : AnalysisJob)
  | returned (fin : Finish)
  | raised
  deriving DecidableEq

/-- `job` is the executor's copy, `analysis` the row it has persisted. -/
structure Exec where
  id : ℕ
  poll : ℕ
  job : AnalysisJob
  analysis : Option SessionAnalysis
  stage : ExecStage
  deriving DecidableEq

instance : Keyed Poll ℕ := ⟨Poll.id⟩

instance : Keyed Exec ℕ := ⟨Exec.id⟩

structure State where
  jobs : Table TxId Uuid Empty AnalysisJob
  db : Tables TxId
  polls : List Poll
  execs : List Exec

/-- The call of the executor has not ended. -/
def Exec.InProgress (x : Exec) : Prop :=
  match x.stage with
  | .returned _ => False
  | .raised => False
  | _ => True

instance (x : Exec) : Decidable x.InProgress := by
  unfold Exec.InProgress
  split <;> infer_instance

/-! ### Statements -/

section Statements

variable (T : Table TxId Uuid Empty AnalysisJob) (poll : Poll)

/-- The stale rows that `_recover_stale_running_jobs` locks. -/
def staleKeys : List Uuid :=
  ((T.view (.poll poll.id)).filter fun job =>
    job.Stale (poll.acquiredAt - seconds poll.worker.staleTimeoutSeconds) ∧
      T.Free (.poll poll.id) job.id).map AnalysisJob.id

/-- `_recover_stale_running_jobs`: the rows are locked by the `SELECT` that finds them,
so reading and writing them is one step. -/
def recoverStep : Table TxId Uuid Empty AnalysisJob :=
  T.writeAll (.poll poll.id) (staleKeys T poll)
    (AnalysisJob.Stale (poll.acquiredAt - seconds poll.worker.staleTimeoutSeconds))
    (AnalysisJob.recovered poll.acquiredAt poll.worker.staleTimeoutSeconds)

/-- The queued rows that the acquisition selects and locks. -/
def selected : List AnalysisJob :=
  selectAvailable (T.view (.poll poll.id)) poll.worker.limit poll.acquiredAt
    fun id => !decide (T.Free (.poll poll.id) id)

/-- The second half of `acquire_available_jobs`. -/
def selectStep : Table TxId Uuid Empty AnalysisJob :=
  T.writeAll (.poll poll.id) ((selected T poll).map AnalysisJob.id) (fun _ => True)
    (AnalysisJob.acquired poll.worker.workerId poll.acquiredAt)

/-- The flush of one column: it is written when it differs from the loaded value. -/
def column {α : Type*} [DecidableEq α] (loaded updated current : α) : α :=
  if updated = loaded then current else updated

/-- The flush of a loaded and updated row onto the current version. -/
def flushed (loaded updated current : AnalysisJob) : AnalysisJob where
  id := current.id
  sessionId := column loaded.sessionId updated.sessionId current.sessionId
  dreamId := column loaded.dreamId updated.dreamId current.dreamId
  threadId := column loaded.threadId updated.threadId current.threadId
  status := column loaded.status updated.status current.status
  provider := column loaded.provider updated.provider current.provider
  model := column loaded.model updated.model current.model
  mode := column loaded.mode updated.mode current.mode
  attempts := column loaded.attempts updated.attempts current.attempts
  maxAttempts := column loaded.maxAttempts updated.maxAttempts current.maxAttempts
  lastErrorClass := column loaded.lastErrorClass updated.lastErrorClass current.lastErrorClass
  lastErrorMessage :=
    column loaded.lastErrorMessage updated.lastErrorMessage current.lastErrorMessage
  retryable := column loaded.retryable updated.retryable current.retryable
  createdAt := column loaded.createdAt updated.createdAt current.createdAt
  updatedAt := column loaded.updatedAt updated.updatedAt current.updatedAt
  availableAfter := column loaded.availableAfter updated.availableAfter current.availableAfter
  startedAt := column loaded.startedAt updated.startedAt current.startedAt
  completedAt := column loaded.completedAt updated.completedAt current.completedAt
  lockedBy := column loaded.lockedBy updated.lockedBy current.lockedBy
  lockedAt := column loaded.lockedAt updated.lockedAt current.lockedAt

/-- The `UPDATE` of `mark_completed`, `mark_failed` or `requeue` by execution `a`. -/
def finishStep (a : ℕ) (jobId : Uuid) (fin : Finish) (loaded : AnalysisJob) :
    Table TxId Uuid Empty AnalysisJob :=
  T.write (.exec a) jobId (flushed loaded (fin.write loaded))

end Statements

@[simp] theorem flushed_id (loaded updated current : AnalysisJob) :
    (flushed loaded updated current).id = current.id := rfl

/-- A finishing call changes the status it has loaded, so it always writes it. -/
theorem flushed_status {loaded : AnalysisJob} (fin : Finish) (h : loaded.status = .running)
    (current : AnalysisJob) : (flushed loaded (fin.write loaded) current).status = fin.status := by
  have hne : (fin.write loaded).status ≠ loaded.status := by
    rw [h, Finish.write_status]
    exact fin.status_ne_running
  exact (if_neg hne).trans (fin.write_status loaded)

/-! ### Events -/

/-- The errors that an executor handles: a retryable one, or any other, which fails
the job for good. -/
inductive Failure where
  | retryable (errorClass errorMessage : String)
  | terminal (errorMessage : String)
  deriving DecidableEq, Repr

/-- `_handle_retryable_failure` and `_handle_terminal_failure`. -/
def Failure.handle (copy : AnalysisJob) (now : Time) : Failure → Finish
  | .retryable errorClass errorMessage => handleRetryableFailure copy errorClass errorMessage now
  | .terminal errorMessage => .markFailed "NonRetryableAnalysisError" errorMessage false now

/-- The exception can come up at this stage of the execution: anything while it
prepares, and afterwards what leaves the transaction usable. -/
def Failure.CanHappen : Failure → ExecStage → Prop
  | _, .thinking => True
  | .terminal _, .analysing x => match x.stage with
    | .raised => True
    | .resolved _ persist => persist.phase = .refused
    | _ => False
  | _, _ => False

instance : ∀ (failure : Failure) (stage : ExecStage), Decidable (failure.CanHappen stage) := by
  intro failure stage
  unfold Failure.CanHappen
  split
  · infer_instance
  · split <;> infer_instance
  · infer_instance

/-- What a successful execution passes to `mark_completed`: the persisted analysis,
or none after a dream memory job. -/
def Exec.result (x : Exec) : Option (Option SessionAnalysis) :=
  match x.stage with
  | .thinking => if x.job.dreamId = none then none else some none
  | .analysing tx => match tx.stage with
    | .resolved _ persist => match persist.phase with
      | .persisted analysis => some (some analysis)
      | _ => none
    | _ => none
  | _ => none

/-- The events: `create` is `create_job` in a transaction of its own; `open`,
`recover`, `select` and `acquire` are the acquisition of a poll, `next` and `start`
its loop over the chunks, `stop` its end; the rest are the steps of an execution, of
which `check` and `update` are the two statements of the finishing call. The session
rows that an analysis sees are given with its statement. -/
inductive Event where
  | create (id sessionId : Uuid) (provider model : String) (maxAttempts : ℤ) (mode : AnalysisMode)
      (dreamId : Option ℕ) (now : Time)
  | «open» (p : ℕ) (worker : Worker) (acquiredAt : Time)
  | recover (p : ℕ)
  | select (p : ℕ)
  | acquire (p : ℕ)
  | next (p : ℕ)
  | start (p a : ℕ)
  | stop (p : ℕ)
  | analyse (a : ℕ) (payload : AnalysisPayload) (now startedAt : Time)
  | statement (a : ℕ) (sessions : List DreamSession) (id : Uuid) (now : Time)
  | complete (a : ℕ) (now : Time)
  | fail (a : ℕ) (failure : Failure) (now : Time)
  | check (a : ℕ)
  | update (a : ℕ)
  | commit (a : ℕ)
  | abort (a : ℕ)
  deriving DecidableEq

namespace State

/-- Move poll `p` to a stage. -/
def setPoll (s : State) (p : ℕ) (stage : PollStage) : State :=
  { s with polls := modify s.polls p fun poll => { poll with stage := stage } }

/-- Move execution `a` to a stage. -/
def setExec (s : State) (a : ℕ) (stage : ExecStage) : State :=
  { s with execs := modify s.execs a fun x => { x with stage := stage } }

/-- The execution has called `mark_completed`. -/
def succeed (s : State) (a : ℕ) (analysis : Option SessionAnalysis) (now : Time) : State :=
  { s with execs := modify s.execs a fun x =>
    { x with
      analysis := analysis
      stage := .finishing (.markCompleted (analysis.map SessionAnalysis.threadId) now) } }

end State

open State in
/-- One event. A statement that has to wait is not enabled. -/
def step (s : State) : Event → Option State
  | .create id sessionId provider model maxAttempts mode dreamId now =>
    if s.jobs.row id = none then
      some { s with jobs := { s.jobs with committed := s.jobs.committed ++
        [newJob id sessionId provider model maxAttempts mode dreamId now] } }
    else none
  | .open p worker acquiredAt =>
    if get s.polls p = none then
      some { s with polls := s.polls ++ [⟨p, worker, acquiredAt, .opened⟩] }
    else none
  | .recover p => do
    let poll ← get s.polls p
    match poll.stage with
    | .opened => some { s.setPoll p .recovered with jobs := recoverStep s.jobs poll }
    | _ => none
  | .select p => do
    let poll ← get s.polls p
    match poll.stage with
    | .recovered =>
      let jobs := (selected s.jobs poll).map
        (AnalysisJob.acquired poll.worker.workerId poll.acquiredAt)
      some { s.setPoll p (.selected jobs) with jobs := selectStep s.jobs poll }
    | _ => none
  | .acquire p => do
    let poll ← get s.polls p
    match poll.stage with
    | .selected jobs =>
      let n := poll.worker.chunk
      some { s.setPoll p (.running [] (jobs.take n) (jobs.drop n)) with
        jobs := s.jobs.commit (.poll p) }
    | _ => none
  | .next p => do
    let poll ← get s.polls p
    match poll.stage with
    | .running active [] rest =>
      if ∀ a ∈ active, ∀ x ∈ get s.execs a, x.poll ≠ p then
        let n := poll.worker.chunk
        some (s.setPoll p (.running [] (rest.take n) (rest.drop n)))
      else none
    | _ => none
  | .start p a => do
    let poll ← get s.polls p
    match poll.stage with
    | .running active (job :: chunk) rest =>
      if get s.execs a = none then
        some { s.setPoll p (.running (active ++ [a]) chunk rest) with
          execs := s.execs ++ [⟨a, p, job, none, .thinking⟩] }
      else none
    | _ => none
  | .stop p => do
    let _ ← get s.polls p
    some { s with polls := delete s.polls p, jobs := s.jobs.rollback (.poll p) }
  | .analyse a payload now startedAt => do
    let x ← get s.execs a
    if x.stage = .thinking ∧ x.job.dreamId = none ∧ payload.sessionId = x.job.sessionId then
      some (s.setExec a (.analysing
        ⟨⟨payload, x.job.mode, now, startedAt, some x.job.id⟩, .opened⟩))
    else none
  | .statement a sessions id now => do
    let x ← get s.execs a
    match x.stage with
    | .analysing tx =>
      let (db, tx') ← tx.step sessions s.db (.exec a) id now
      some { s.setExec a (.analysing tx') with db := db }
    | _ => none
  | .complete a now => do
    let x ← get s.execs a
    let analysis ← x.result
    some (s.succeed a analysis now)
  | .fail a failure now => do
    let x ← get s.execs a
    if failure.CanHappen x.stage then
      some (s.setExec a (.finishing (failure.handle x.job now)))
    else none
  | .check a => do
    let x ← get s.execs a
    match x.stage with
    | .finishing fin =>
      match s.jobs.seen (.exec a) x.job.id with
      | none => some (s.setExec a .raised)
      | some row =>
        if row.status = .running then some (s.setExec a (.checked fin row))
        else some (s.setExec a .raised)
    | _ => none
  | .update a => do
    let x ← get s.execs a
    match x.stage with
    | .checked fin loaded =>
      if s.jobs.Free (.exec a) x.job.id then
        some { s.setExec a (.returned fin) with
          jobs := finishStep s.jobs a x.job.id fin loaded }
      else none
    | _ => none
  | .commit a => do
    let x ← get s.execs a
    match x.stage with
    | .returned _ =>
      some { s with
        jobs := s.jobs.commit (.exec a)
        db := ⟨s.db.threads.commit (.exec a), s.db.analyses.commit (.exec a)⟩
        execs := delete s.execs a }
    | _ => none
  | .abort a => do
    let _ ← get s.execs a
    some { s with
      jobs := s.jobs.rollback (.exec a)
      db := ⟨s.db.threads.rollback (.exec a), s.db.analyses.rollback (.exec a)⟩
      execs := delete s.execs a }

def quiet (jobs : List AnalysisJob) (threads : List AnalysisThread)
    (analyses : List SessionAnalysis) : State :=
  ⟨Table.ofRows jobs, ⟨Table.ofRows threads, Table.ofRows analyses⟩, [], []⟩

/-! ### Effects -/

inductive Effect (s : State) : Event → State → Prop
  | create {id sessionId : Uuid} {provider model : String} {maxAttempts : ℤ} {mode : AnalysisMode}
      {dreamId : Option ℕ} {now : Time} (hn : s.jobs.row id = none) :
      Effect s (.create id sessionId provider model maxAttempts mode dreamId now)
        { s with jobs := { s.jobs with committed := s.jobs.committed ++
          [newJob id sessionId provider model maxAttempts mode dreamId now] } }
  | «open» {p : ℕ} {worker : Worker} {acquiredAt : Time} (hn : get s.polls p = none) :
      Effect s (.open p worker acquiredAt)
        { s with polls := s.polls ++ [⟨p, worker, acquiredAt, .opened⟩] }
  | recover {p : ℕ} (poll : Poll) (hp : get s.polls p = some poll) (hs : poll.stage = .opened) :
      Effect s (.recover p) { s.setPoll p .recovered with jobs := recoverStep s.jobs poll }
  | select {p : ℕ} (poll : Poll) (hp : get s.polls p = some poll) (hs : poll.stage = .recovered) :
      Effect s (.select p) { s.setPoll p (.selected ((selected s.jobs poll).map
        (AnalysisJob.acquired poll.worker.workerId poll.acquiredAt))) with
          jobs := selectStep s.jobs poll }
  | acquire {p : ℕ} (poll : Poll) (jobs : List AnalysisJob) (hp : get s.polls p = some poll)
      (hs : poll.stage = .selected jobs) :
      Effect s (.acquire p) { s.setPoll p (.running [] (jobs.take poll.worker.chunk)
        (jobs.drop poll.worker.chunk)) with jobs := s.jobs.commit (.poll p) }
  | next {p : ℕ} (poll : Poll) (active : List ℕ) (rest : List AnalysisJob)
      (hp : get s.polls p = some poll) (hs : poll.stage = .running active [] rest) :
      Effect s (.next p) (s.setPoll p (.running [] (rest.take poll.worker.chunk)
        (rest.drop poll.worker.chunk)))
  | start {p a : ℕ} (poll : Poll) (active : List ℕ) (job : AnalysisJob) (chunk rest : List AnalysisJob)
      (hp : get s.polls p = some poll) (hs : poll.stage = .running active (job :: chunk) rest)
      (hn : get s.execs a = none) :
      Effect s (.start p a) { s.setPoll p (.running (active ++ [a]) chunk rest) with
        execs := s.execs ++ [⟨a, p, job, none, .thinking⟩] }
  | stop {p : ℕ} (poll : Poll) (hp : get s.polls p = some poll) :
      Effect s (.stop p) { s with polls := delete s.polls p, jobs := s.jobs.rollback (.poll p) }
  | analyse {a : ℕ} {payload : AnalysisPayload} {now startedAt : Time} (x : Exec)
      (hx : get s.execs a = some x) (hs : x.stage = .thinking) (hd : x.job.dreamId = none) :
      Effect s (.analyse a payload now startedAt) (s.setExec a (.analysing
        ⟨⟨payload, x.job.mode, now, startedAt, some x.job.id⟩, .opened⟩))
  | statement {a : ℕ} {sessions : List DreamSession} {id : Uuid} {now : Time} (x : Exec)
      (tx tx' : Transaction) (db' : Tables TxId) (hx : get s.execs a = some x)
      (hs : x.stage = .analysing tx) (he : tx.Effect s.db (.exec a) id now db' tx') :
      Effect s (.statement a sessions id now) { s.setExec a (.analysing tx') with db := db' }
  | complete {a : ℕ} {now : Time} (x : Exec) (analysis : Option SessionAnalysis)
      (hx : get s.execs a = some x) (hr : x.result = some analysis) :
      Effect s (.complete a now) (s.succeed a analysis now)
  | fail {a : ℕ} {failure : Failure} {now : Time} (x : Exec) (hx : get s.execs a = some x)
      (hc : failure.CanHappen x.stage) :
      Effect s (.fail a failure now) (s.setExec a (.finishing (failure.handle x.job now)))
  | check {a : ℕ} (x : Exec) (fin : Finish) (row : AnalysisJob) (hx : get s.execs a = some x)
      (hs : x.stage = .finishing fin) (hrow : s.jobs.seen (.exec a) x.job.id = some row)
      (hr : row.status = .running) : Effect s (.check a) (s.setExec a (.checked fin row))
  | refuse {a : ℕ} (x : Exec) (fin : Finish) (hx : get s.execs a = some x)
      (hs : x.stage = .finishing fin) : Effect s (.check a) (s.setExec a .raised)
  | update {a : ℕ} (x : Exec) (fin : Finish) (loaded : AnalysisJob) (hx : get s.execs a = some x)
      (hs : x.stage = .checked fin loaded) (hfree : s.jobs.Free (.exec a) x.job.id) :
      Effect s (.update a) { s.setExec a (.returned fin) with
        jobs := finishStep s.jobs a x.job.id fin loaded }
  | commit {a : ℕ} (x : Exec) (fin : Finish) (hx : get s.execs a = some x)
      (hs : x.stage = .returned fin) :
      Effect s (.commit a) { s with
        jobs := s.jobs.commit (.exec a)
        db := ⟨s.db.threads.commit (.exec a), s.db.analyses.commit (.exec a)⟩
        execs := delete s.execs a }
  | abort {a : ℕ} (x : Exec) (hx : get s.execs a = some x) :
      Effect s (.abort a) { s with
        jobs := s.jobs.rollback (.exec a)
        db := ⟨s.db.threads.rollback (.exec a), s.db.analyses.rollback (.exec a)⟩
        execs := delete s.execs a }

theorem effect_of_step {s t : State} {e : Event} (h : step s e = some t) : Effect s e t := by
  cases e <;> simp only [step, Option.bind_eq_bind, Option.ite_none_right_eq_some,
    Option.some.injEq, Option.bind_eq_some_iff] at h
  case create => obtain ⟨hn, rfl⟩ := h; exact .create hn
  case «open» => obtain ⟨hn, rfl⟩ := h; exact .open hn
  case recover =>
    obtain ⟨poll, hp, h⟩ := h
    split at h <;> cases h
    exact .recover poll hp ‹_›
  case select =>
    obtain ⟨poll, hp, h⟩ := h
    split at h <;> cases h
    exact .select poll hp ‹_›
  case acquire =>
    obtain ⟨poll, hp, h⟩ := h
    split at h <;> cases h
    exact .acquire poll _ hp ‹_›
  case next =>
    obtain ⟨poll, hp, h⟩ := h
    split at h
    · split at h <;> cases h
      exact .next poll _ _ hp ‹_›
    · cases h
  case start =>
    obtain ⟨poll, hp, h⟩ := h
    split at h
    · split at h <;> cases h
      exact .start poll _ _ _ _ hp ‹_› ‹_›
    · cases h
  case stop =>
    obtain ⟨poll, hp, rfl⟩ := h
    exact .stop poll hp
  case analyse =>
    obtain ⟨x, hx, ⟨hs, hd, -⟩, rfl⟩ := h
    exact .analyse x hx hs hd
  case statement =>
    obtain ⟨x, hx, h⟩ := h
    split at h
    · simp only [Option.bind_eq_some_iff, Option.some.injEq, Prod.exists] at h
      obtain ⟨db', tx', hstep, rfl⟩ := h
      exact .statement x _ tx' db' hx ‹_› (Transaction.effect_of_step hstep)
    · cases h
  case complete =>
    obtain ⟨x, hx, analysis, hr, rfl⟩ := h
    exact .complete x analysis hx hr
  case fail =>
    obtain ⟨x, hx, hc, rfl⟩ := h
    exact .fail x hx hc
  case check =>
    obtain ⟨x, hx, h⟩ := h
    split at h
    · next fin hs =>
      split at h
      · cases h; exact .refuse x fin hx hs
      · next row hrow =>
        split at h <;> cases h
        · exact .check x fin row hx hs hrow ‹_›
        · exact .refuse x fin hx hs
    · cases h
  case update =>
    obtain ⟨x, hx, h⟩ := h
    split at h
    · split at h <;> cases h
      exact .update x _ _ hx ‹_› ‹_›
    · cases h
  case commit =>
    obtain ⟨x, hx, h⟩ := h
    split at h <;> cases h
    exact .commit x _ hx ‹_›
  case abort =>
    obtain ⟨x, hx, rfl⟩ := h
    exact .abort x hx

/-! ### Pieces of runs -/

namespace Example

def worker (workerId : String) : Worker := ⟨workerId, 10, 2, 180⟩

def job : AnalysisJob := newJob 1 7 "mock" "mock-v1" 3 .auto none 0

/-- A poll acquires its jobs and starts the first one. -/
def takes (p a : ℕ) (workerId : String) (acquiredAt : Time) : List Event :=
  [.open p (worker workerId) acquiredAt, .recover p, .select p, .acquire p, .start p a]

/-- An execution stores its analysis in a new thread. -/
def stores (a : ℕ) (threadId analysisId : Uuid) (now : Time) : List Event :=
  .analyse a ⟨7, 3, "mock", "mock-v1", "p1", "dream_v1", "\x7b\x7d", none⟩ now now ::
    List.replicate 6 (.statement a [⟨7, 3, .active, 0, 0⟩] threadId now) ++
    List.replicate 5 (.statement a [⟨7, 3, .active, 0, 0⟩] analysisId now)

/-- The provider has timed out, and the execution has read the status of its job. -/
def timesOut (a : ℕ) (now : Time) : List Event :=
  [.fail a (.retryable "RetryableAnalysisError" "timed out") now, .check a]

end Example

end LiberNovus.Runtime

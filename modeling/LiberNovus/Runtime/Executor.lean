import LiberNovus.Analysis.Pipeline
import LiberNovus.Memory.Extraction
import LiberNovus.Notifications.Delivery
import LiberNovus.Runtime.Queue

/-! One execution of an acquired job, `AnalysisRuntimeWorker._execute`: the job in a
transaction of its own, with the handlers that turn an exception into a failed or
requeued job. The handlers run in the transaction of the work that raised. -/

namespace LiberNovus.Runtime

open Rows Session Analysis Analysis.Pipeline Memory UnitOfWork

/-- A call of the queue service. -/
def callQueue (jobId : Uuid) (fin : Queue.Finish) : Run AnalysisJob := Tx.statement fun db =>
  match fin.call db.jobs jobId with
  | .error e => .error (.transition e)
  | .ok (job, jobs) => .ok (job, { db with jobs := jobs })

/-- The handlers of `execute_analysis_job`, by the exception they handle. -/
def handleFailure (env : Environment) (job : AnalysisJob) : RunError → Queue.Finish
  | .raised (.retryable message) =>
    Queue.handleRetryableFailure job "RetryableAnalysisError" message env.finishedAt
  | e => .markFailed "NonRetryableAnalysisError" (RunError.message e) false env.finishedAt

section Execution

variable [CharTable] (env : Environment)
  (deliver : AnalysisJob → SessionAnalysis → Except String Unit) (job : AnalysisJob)

/-- `SessionAnalysis.with_job_id`, with its error. -/
def bindJob (analysis : SessionAnalysis) (jobId : Uuid) : Except Exc SessionAnalysis :=
  match analysis.withJobId jobId with
  | some bound => .ok bound
  | none =>
    let bound := analysis.analysisJobId.elim "None" toString
    .error (.nonRetryable
      (s!"analysis_job_id already bound to {bound}, " ++ s!"cannot bind to {jobId}"))

def assembleRuntimeAnalysis : Run (SessionAnalysis × AnalysisThread) := do
  let prepared ← prepareSessionAnalysis env job.sessionId job.mode
  let analysis ← Tx.query fun db =>
    buildSessionAnalysisRow db.analyses prepared env.analysisId env.startedAt
  let bound ← Tx.lift (bindJob analysis job.id)
  pure (bound, prepared.thread)

def executeWithJobBinding : Run SessionAnalysis :=
  if job.dreamId.isSome then do
    executeDreamMemoryJob env job
    Tx.raise .memoryOnlyComplete
  else do
    let (analysis, thread) ← assembleRuntimeAnalysis env job
    env.others .store
    persistSessionAnalysisInThread env thread analysis

/-- How the `try` of `execute_analysis_job` ends: the job is completed without an analysis,
or there is an analysis. -/
inductive Attempted where
  | memoryOnly (completed : AnalysisJob)
  | analysed (analysis : SessionAnalysis)

/-- The body of that `try`. -/
def attemptJob : Run Attempted := do
  match ← Tx.attempt (executeWithJobBinding env job) with
  | .ok analysis => pure (.analysed analysis)
  | .error (.raised .memoryOnlyComplete) => do
    let completed ← callQueue job.id (.markCompleted none env.finishedAt)
    pure (.memoryOnly completed)
  | .error e => Tx.fail e

/-- `execute_analysis_job`, with the delivery it ends with. -/
def executeAnalysisJob : Run AnalysisJob := do
  match ← Tx.attempt (attemptJob env job) with
  | .error e => callQueue job.id (handleFailure env job e)
  | .ok (.memoryOnly completed) => pure completed
  | .ok (.analysed analysis) => do
    let completed ← callQueue job.id (.markCompleted (some analysis.threadId) env.finishedAt)
    if job.dreamId.isNone then
      Tx.lift ((deliver completed analysis).mapError .other)
    pure completed

/-- `AnalysisRuntimeWorker._execute`: the outcome, and the database after the commit or
the rollback. -/
def execute (db : Database) : Except RunError AnalysisJob × Database :=
  Tx.transaction (executeAnalysisJob env deliver job) db

end Execution

/-! ### The calls of the queue service -/

section Queue

variable {jobId : Uuid} {row : AnalysisJob} {fin : Queue.Finish} {s : AsyncSession Database}

/-- On a running row the call succeeds. -/
theorem callQueue_ok (hs : s.usable = true) (hrow : get s.tables.jobs jobId = some row)
    (hrun : row.status = .running) :
    callQueue jobId fin s = (.ok (fin.write row),
      { s with tables := { s.tables with jobs := modify s.tables.jobs jobId fin.write } }) := by
  refine Tx.statement_ok hs ?_
  rw [Queue.Finish.call_eq, transition_ok.mpr ⟨row, hrow, hrun, rfl⟩]

theorem callQueue_unusable (hs : s.usable = false) :
    callQueue jobId fin s = (.error .pendingRollback, s) := Tx.statement_unusable hs

end Queue

/-! ### The phases of an execution -/

section Phases

variable [CharTable] {env : Environment} {job : AnalysisJob} {db : Database} {safe : Prop}

omit [CharTable] in
theorem bindJob_build (analyses : List SessionAnalysis) (prepared : SessionAnalysisPrepareResult)
    (id : Uuid) (createdAt : Time) (jobId : Uuid) :
    bindJob (buildSessionAnalysisRow analyses prepared id createdAt) jobId =
      .ok { buildSessionAnalysisRow analyses prepared id createdAt with
        analysisJobId := some jobId } := by
  rw [bindJob, withJobId_build]

/-- Whatever the assembly raises, the session stays usable. -/
theorem keeps_assembleRuntimeAnalysis {P : Database → Prop} (hP : Ignores env P)
    (hc : Caches env job.sessionId P) : Tx.Keeps P safe (assembleRuntimeAnalysis env job) :=
  .bind (keeps_prepareSessionAnalysis hP hc _) fun _ => .bind (.query _) fun _ =>
    .bind (.lift _) fun _ => .pure _

/-- An assembled analysis is bound to the job. -/
theorem bound_of_assembleRuntimeAnalysis {s s' : AsyncSession Database}
    {analysis : SessionAnalysis} {thread : AnalysisThread}
    (h : assembleRuntimeAnalysis env job s = (.ok (analysis, thread), s')) :
    analysis.analysisJobId = some job.id := by
  obtain ⟨prepared, s₁, -, h⟩ := Tx.bind_eq_ok.mp h
  obtain ⟨row, s₂, hrow, h⟩ := Tx.bind_eq_ok.mp h
  obtain rfl := Tx.eq_of_query hrow
  rw [bindJob_build] at h
  cases h
  rfl

theorem keeps_executeWithJobBinding :
    Tx.Keeps (SameJobs db) False (executeWithJobBinding env job) := by
  unfold executeWithJobBinding
  split
  · exact .bind (.bind (keeps_assembleDreamMemory (ignores_sameJobs db).others _ _) fun _ =>
      .bind (keeps_upsertDreamMemory (fun _ _ h => h) _ _ _ _ _) fun _ => .pure _) fun _ => .raise _
  · exact .bind (keeps_assembleRuntimeAnalysis (ignores_sameJobs db) (caches_sameJobs db)) fun _ =>
      .bind (Environment.keeps_others (ignores_sameJobs db).others _) fun _ =>
        keeps_persistSessionAnalysisInThread (ignores_sameJobs db) _ _

end Phases

/-! ### How an execution ends -/

section Endings

variable [CharTable] {env : Environment} {deliver : AnalysisJob → SessionAnalysis → Except String Unit}
  {job row : AnalysisJob} {db : Database} {s : AsyncSession Database}

theorem attemptJob_raised {s₀ : AsyncSession Database} {e : RunError}
    (he : e ≠ .raised .memoryOnlyComplete) (h : executeWithJobBinding env job s₀ = (.error e, s)) :
    attemptJob env job s₀ = (.error e, s) := by
  refine (Tx.bind_ok (Tx.attempt_error h)).trans ?_
  cases e with
  | raised e =>
    cases e with
    | memoryOnlyComplete => exact absurd rfl he
    | _ => rfl
  | _ => rfl

/-- The handler of an exception that leaves the session usable. -/
theorem execute_handled (hrow : get db.jobs job.id = some row) (hrun : row.status = .running)
    {e : RunError} (he : e ≠ .raised .memoryOnlyComplete)
    (h : executeWithJobBinding env job (.opened db) = (.error e, s)) (hs : s.usable = true) :
    execute env deliver job db = (.ok ((handleFailure env job e).write row),
      { s.tables with jobs := modify db.jobs job.id (handleFailure env job e).write }) := by
  have hjobs : s.tables.jobs = db.jobs := (keeps_executeWithJobBinding.opened rfl h).tables
  have hrow' : get s.tables.jobs job.id = some row := by rw [hjobs, hrow]
  have hexec : executeAnalysisJob env deliver job (.opened db) =
      (.ok ((handleFailure env job e).write row), _) :=
    (Tx.bind_ok (Tx.attempt_error (attemptJob_raised he h))).trans (callQueue_ok hs hrow' hrun)
  rw [execute, Tx.transaction_ok hexec (by exact hs), hjobs]

/-- In an unusable session the handler raises as well, and everything is rolled back. -/
theorem execute_broken (h : Tx.Breaks (executeWithJobBinding env job) (.opened db)) :
    (execute env deliver job db).2.jobs = db.jobs := by
  obtain ⟨e, s, h, hs⟩ := h
  have hcommitted : s.committed.jobs = db.jobs := (keeps_executeWithJobBinding.opened rfl h).committed
  have hattempt : ∃ e', attemptJob env job (.opened db) = (.error e', s) := by
    by_cases he : e = .raised .memoryOnlyComplete
    · subst he
      exact ⟨_, (Tx.bind_ok (Tx.attempt_error h)).trans (Tx.bind_error (callQueue_unusable hs))⟩
    · exact ⟨e, attemptJob_raised he h⟩
  obtain ⟨e', hattempt⟩ := hattempt
  have hexec : executeAnalysisJob env deliver job (.opened db) = (.error .pendingRollback, s) :=
    (Tx.bind_ok (Tx.attempt_error hattempt)).trans (callQueue_unusable hs)
  rw [execute, Tx.transaction_error hexec, hcommitted]

/-- With an analysis, the job is completed and the analysis delivered. -/
theorem execute_analysed (hd : job.dreamId = none) (hrow : get db.jobs job.id = some row)
    (hrun : row.status = .running) {analysis : SessionAnalysis}
    (h : executeWithJobBinding env job (.opened db) = (.ok analysis, s)) (hs : s.usable = true) :
    execute env deliver job db =
      match deliver (row.completed (some analysis.threadId) env.finishedAt) analysis with
      | .error e => (.error (.raised (.other e)), s.committed)
      | .ok _ => (.ok (row.completed (some analysis.threadId) env.finishedAt),
          { s.tables with
            jobs := modify db.jobs job.id
              (AnalysisJob.completed (some analysis.threadId) env.finishedAt) }) := by
  have hjobs : s.tables.jobs = db.jobs := (keeps_executeWithJobBinding.opened rfl h).tables
  have hrow' : get s.tables.jobs job.id = some row := by rw [hjobs, hrow]
  have hn : job.dreamId.isNone = true := by rw [hd]; rfl
  have hattempt : attemptJob env job (.opened db) = (.ok (.analysed analysis), s) :=
    Tx.bind_ok (Tx.attempt_ok h)
  set completed := row.completed (some analysis.threadId) env.finishedAt with hcompleted
  set t : AsyncSession Database := { s with tables := { s.tables with
    jobs := modify s.tables.jobs job.id
      (AnalysisJob.completed (some analysis.threadId) env.finishedAt) } } with ht
  have hcall : callQueue job.id (.markCompleted (some analysis.threadId) env.finishedAt) s =
      (.ok completed, t) := callQueue_ok hs hrow' hrun
  cases hdel : deliver completed analysis with
  | error e =>
    have hexec : executeAnalysisJob env deliver job (.opened db) = (.error (.raised (.other e)), t) := by
      refine (Tx.bind_ok (Tx.attempt_ok hattempt)).trans ((Tx.bind_ok hcall).trans ?_)
      rw [if_pos hn]
      exact Tx.bind_error (by rw [hdel]; rfl)
    rw [execute, Tx.transaction_error hexec]
  | ok u =>
    have hexec : executeAnalysisJob env deliver job (.opened db) = (.ok completed, t) := by
      refine (Tx.bind_ok (Tx.attempt_ok hattempt)).trans ((Tx.bind_ok hcall).trans ?_)
      rw [if_pos hn]
      exact Tx.bind_ok (by rw [hdel]; rfl)
    rw [execute, Tx.transaction_ok hexec (by exact hs), ht]
    simp only [hjobs]

end Endings

end LiberNovus.Runtime

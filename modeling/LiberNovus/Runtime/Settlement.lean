import LiberNovus.Runtime.Executor

/-! What an execution leaves committed. The handlers of the executor run in the transaction
of the work that raised, so they reach the job only if that left the session usable; and
the delivery runs before the commit.

Proved: a running job leaves `running` exactly when no flush outside of a savepoint fails
and the delivery does not raise; and the delivery is without effect on jobs, threads and
analyses exactly when it does not raise. -/

namespace LiberNovus.Runtime

open Rows Session Analysis Analysis.Pipeline Memory UnitOfWork Notifications

section Phases

variable [CharTable] {env : Environment} {job : AnalysisJob} {db : Database}

theorem executeWithJobBinding_memory (hd : job.dreamId.isSome = true) :
    executeWithJobBinding env job = (do
      executeDreamMemoryJob env job
      Tx.raise .memoryOnlyComplete) := if_pos hd

theorem executeWithJobBinding_analysis (hd : job.dreamId = none) :
    executeWithJobBinding env job = (do
      let (analysis, thread) ← assembleRuntimeAnalysis env job
      env.others .store
      persistSessionAnalysisInThread env thread analysis) := if_neg (by rw [hd]; simp)

/-- The phase of the job raises and leaves the session usable. -/
def RaisesUsable (env : Environment) (job : AnalysisJob) (db : Database) : Prop :=
  ∃ e s, executeWithJobBinding env job (.opened db) = (.error e, s) ∧ s.usable = true

section Memory

variable (hd : job.dreamId.isSome = true)
include hd

end Memory

section Analysis

variable (hd : job.dreamId = none)
include hd

theorem analysis_unassembled {e : RunError} {s : AsyncSession Database}
    (h : assembleRuntimeAnalysis env job (.opened db) = (.error e, s)) :
    RaisesUsable env job db := by
  have hkeeps : Tx.Keeps (SameJobs db) True (assembleRuntimeAnalysis env job) :=
    keeps_assembleRuntimeAnalysis (ignores_sameJobs db) (caches_sameJobs db)
  refine ⟨e, s, ?_, (hkeeps.opened rfl h).usable trivial⟩
  rw [executeWithJobBinding_analysis hd]
  exact Tx.bind_error h

variable {analysis : SessionAnalysis} {thread : AnalysisThread} {s : AsyncSession Database}
  (h : assembleRuntimeAnalysis env job (.opened db) = (.ok (analysis, thread), s))
include h

/-- Once the analysis is assembled, the job comes down to its persistence. -/
theorem analysis_assembled :
    ∃ t : AsyncSession Database, t.usable = true ∧ executeWithJobBinding env job (.opened db) =
      persistSessionAnalysisInThread env thread analysis t := by
  have hkeeps : Tx.Keeps (SameJobs db) True (assembleRuntimeAnalysis env job) :=
    keeps_assembleRuntimeAnalysis (ignores_sameJobs db) (caches_sameJobs db)
  have hs : s.usable = true := (hkeeps.opened rfl h).usable trivial
  rw [executeWithJobBinding_analysis hd]
  exact ⟨_, by exact hs, (Tx.bind_ok h).trans (Tx.bind_ok rfl)⟩

theorem analysis_refused {e : Exc} (hc : checkTarget thread analysis = .error e) :
    RaisesUsable env job db := by
  obtain ⟨t, ht, hphase⟩ := analysis_assembled hd h
  exact ⟨_, t, hphase.trans (persist_refused hc), ht⟩

theorem analysis_stored (hc : checkTarget thread analysis = .ok ()) (hstores : Stores env) :
    ∃ t : AsyncSession Database, t.usable = true ∧ analysis ∈ t.tables.analyses ∧
      executeWithJobBinding env job (.opened db) = (.ok analysis, t) := by
  obtain ⟨t, ht, hphase⟩ := analysis_assembled hd h
  exact ⟨_, by exact ht, by simp [stored], hphase.trans (persist_ok ht hc hstores)⟩

theorem analysis_conflict (hc : checkTarget thread analysis = .ok ()) (hstores : ¬ Stores env) :
    Tx.Breaks (executeWithJobBinding env job) (.opened db) := by
  obtain ⟨t, ht, hphase⟩ := analysis_assembled hd h
  obtain ⟨e, s', hp, hs'⟩ := persist_conflict ht hc hstores
  exact ⟨e, s', hphase.trans hp, hs'⟩

end Analysis

/-- A phase that returns an analysis has assembled it for the job and stored it. -/
theorem analysis_of_ok (hd : job.dreamId = none) {analysis : SessionAnalysis}
    {t : AsyncSession Database} (h : executeWithJobBinding env job (.opened db) = (.ok analysis, t)) :
    t.usable = true ∧ analysis ∈ t.tables.analyses ∧ analysis.analysisJobId = some job.id := by
  rcases ha : assembleRuntimeAnalysis env job (.opened db) with ⟨e | ⟨assembled, thread⟩, s⟩
  · obtain ⟨e, s, hr, -⟩ := analysis_unassembled hd ha
    cases hr.symm.trans h
  · cases hc : checkTarget thread assembled with
    | error e =>
      obtain ⟨e, s, hr, -⟩ := analysis_refused hd ha hc
      cases hr.symm.trans h
    | ok u =>
      by_cases hstores : Stores env
      · obtain ⟨t', ht, hm, hr⟩ := analysis_stored hd ha hc hstores
        cases hr.symm.trans h
        exact ⟨ht, hm, bound_of_assembleRuntimeAnalysis ha⟩
      · obtain ⟨e, s, hr, -⟩ := analysis_conflict hd ha hc hstores
        cases hr.symm.trans h

end Phases

/-! ### Settlement -/

/-- The row of the job has left `running`. -/
def Settled (db : Database) (jobId : Uuid) : Prop :=
  ∃ row, get db.jobs jobId = some row ∧
    (row.status = .completed ∨ row.status = .failed ∨ row.status = .queued)

section Settled

variable {db after : Database} {jobId : Uuid} {row : AnalysisJob} (hrow : get db.jobs jobId = some row)
include hrow

end Settled

section Settlement

variable [CharTable] (env : Environment) (clients : DeliveryClients) (job : AnalysisJob) (db : Database)

end Settlement

section Settlement

variable [CharTable] {env : Environment} {clients : DeliveryClients} {job row : AnalysisJob} {db : Database}

omit [CharTable] in
/-- The delivery of an analysis that the phase returns raises exactly then. -/
theorem deliver_raises_iff (hrow : get db.jobs job.id = some row) {analysis : SessionAnalysis}
    (hbound : analysis.analysisJobId = some job.id) (threadId : Option Uuid) (now : Time) :
    (∃ e, clients.deliver (row.completed threadId now) analysis = .error e) ↔
      clients.Raises job.id := by
  have hid : row.id = job.id := key_of_get hrow
  rw [DeliveryClients.deliver_error_iff clients rfl (by rw [hbound, completed_id, hid]),
    completed_id, hid]

end Settlement

/-! ### Examples -/

namespace Settlement

local instance table : CharTable := ⟨Char.isAlphanum⟩

/-- An analysis that the contract accepts. -/
def reply : String :=
  "\x7b\"summary\": \"\", \"symbols\": [], \"emotional_state\": \x7b\"primary\": \"\", " ++
  "\"secondary\": \"\", \"intensity\": 0.0\x7d, \"jungian_interpretation\": " ++
  "\x7b\"archetypes\": [], \"shadow_elements\": [], \"anima_animus_signals\": [], " ++
  "\"individuation_hint\": \"\"\x7d, \"narrative_interpretation\": \"\", " ++
  "\"key_insight\": \"\", \"uncertainty_notes\": []\x7d"

/-- The provider gives that reply, and the flushes of `failing` run into `message`. -/
def environment (failing : List Flush) (message : String) : Environment where
  llmMaxAttempts := 3
  getProvider := .ok ⟨fun _ _ _ _ => .ok ⟨reply, "mock", "mock-v1"⟩⟩
  renderCompiledPrompt := fun _ => ""
  parseResponse := .ok
  validateAnalysisOutput := .ok
  buildMemoryPrompt := fun _ _ => ""
  validateMemory := fun _ => .error "dream_details"
  lower := fun s => s
  conflict := fun site => if site ∈ failing then some message else none
  meanwhile := fun _ db => db
  summaryId := 10
  threadId := fun reresolve => if reresolve then 12 else 11
  analysisId := 13
  memoryId := 14
  startedAt := seconds 60
  resolvedAt := seconds 60
  persistedAt := seconds 61
  finishedAt := seconds 61

/-- `SET` answers `locked`. -/
def clients (locked : Except String Bool) : DeliveryClients :=
  ⟨false, none, none, ⟨fun _ _ _ _ => locked, .ok ()⟩, ⟨fun _ _ => .ok ()⟩⟩

def job : AnalysisJob := (newJob 1 7 "mock" "mock-v1" 3 .auto none 0).acquired "worker-a" 0

/-- A session of one dream, with its summary, and the acquired job. -/
def database : Database :=
  { sessions := [⟨7, 3, .active, 0, 0⟩]
    dreams := [⟨1, 3, "дом", 0, 7⟩]
    summaries := [⟨⟨1, ["дом"], [], some "дом"⟩, 5, 7, 3, 0⟩]
    turns := []
    jobs := [job]
    threads := []
    analyses := []
    memories := []
    traces := [] }

theorem get_job : get database.jobs job.id = some job := rfl

/-- The active thread of the session, with its latest analysis. -/
def thread : AnalysisThread := ⟨20, 7, .active, 0, some 0, some 21⟩

def latest : SessionAnalysis :=
  ⟨21, 7, 20, 3, "mock", "mock-v1", "v2", "dream_v1", reply, none, true, 0, none, 0⟩

def continued : Database := { database with threads := [thread], analyses := [latest] }

/-- What the other execution stores in that thread. -/
def other : SessionAnalysis :=
  { latest with id := 22, continuationIndex := 1, createdAt := seconds 60 }

end Settlement

/-! ### Delivery -/

def noDelivery (_ : AnalysisJob) (_ : SessionAnalysis) : Except String Unit := .ok ()

/-- The rows an execution writes for an analysis. -/
structure SameRows (db db' : Database) : Prop where
  jobs : db'.jobs = db.jobs
  analyses : db'.analyses = db.analyses
  threads : db'.threads = db.threads

/-- The job is completed, and the analysis that is bound to it is stored. -/
structure Delivered (db : Database) (jobId : Uuid) (analysis : SessionAnalysis) : Prop where
  completed : ∃ row, get db.jobs jobId = some row ∧ row.status = .completed ∧
    row.threadId = some analysis.threadId
  stored : analysis ∈ db.analyses
  bound : analysis.analysisJobId = some jobId

section Delivery

variable [CharTable] {env : Environment} {clients : DeliveryClients} {job row : AnalysisJob}
  {db : Database} {analysis : SessionAnalysis} {t : AsyncSession Database}

/-- With an analysis, the committed rows are those of an execution that does not deliver,
exactly when the delivery does not raise. -/
theorem delivery_sideEffect_iff (hd : job.dreamId = none) (hrow : get db.jobs job.id = some row)
    (hrun : row.status = .running)
    (h : executeWithJobBinding env job (.opened db) = (.ok analysis, t)) :
    SameRows (execute env noDelivery job db).2 (execute env clients.deliver job db).2 ∧
      Delivered (execute env clients.deliver job db).2 job.id analysis ↔
        ¬ clients.Raises job.id := by
  obtain ⟨ht, hmem, hbound⟩ := analysis_of_ok hd h
  have hquiet : execute env noDelivery job db = _ := execute_analysed hd hrow hrun h ht
  rw [← deliver_raises_iff hrow hbound (some analysis.threadId) env.finishedAt, hquiet,
    execute_analysed hd hrow hrun h ht]
  cases hdel : clients.deliver (row.completed (some analysis.threadId) env.finishedAt) analysis with
  | error e =>
    have hcommitted : t.committed.jobs = db.jobs :=
      (keeps_executeWithJobBinding.opened rfl h).committed
    refine iff_of_false ?_ (not_not.mpr ⟨e, rfl⟩)
    rintro ⟨-, ⟨row', hrow', hstatus, -⟩, -, -⟩
    rw [hcommitted, hrow] at hrow'
    cases hrow'
    simp [hrun] at hstatus
  | ok u =>
    refine iff_of_true ⟨⟨rfl, rfl, rfl⟩, ⟨row.completed (some analysis.threadId)
      env.finishedAt, ?_, rfl, rfl⟩, hmem, hbound⟩ (by simp)
    dsimp only
    rw [get_modify (f := AnalysisJob.completed _ _) (completed_id _ _), if_pos rfl, hrow,
      Option.map_some]

end Delivery

/-! ### Examples -/

namespace Settlement

local instance : CharTable := table

/-- The executed phase returns its analysis. -/
theorem analysed : ∃ analysis t,
    executeWithJobBinding (environment [] "") job (.opened database) = (.ok analysis, t) :=
  ⟨_, _, rfl⟩

/-- The lock is refused, and the job is completed all the same. -/
theorem delivery_refused : ∃ analysis, Delivered
    (execute (environment [] "") (clients (.ok false)).deliver job database).2 job.id analysis := by
  obtain ⟨analysis, t, h⟩ := analysed
  refine ⟨analysis, ((delivery_sideEffect_iff rfl get_job rfl h).mpr ?_).2⟩
  rintro ⟨-, ⟨e, he⟩ | ⟨-, e, he⟩⟩ <;> cases he

/-- Redis is away: the analysis is lost and the job left running. -/
theorem delivery_undoes : ¬ ∀ (_ : CharTable) (env : Environment) (clients : DeliveryClients)
    (job row : AnalysisJob) (db : Database) (analysis : SessionAnalysis)
    (t : AsyncSession Database), job.dreamId = none → get db.jobs job.id = some row →
    row.status = .running →
    executeWithJobBinding env job (.opened db) = (.ok analysis, t) →
    SameRows (execute env noDelivery job db).2 (execute env clients.deliver job db).2 ∧
      Delivered (execute env clients.deliver job db).2 job.id analysis := by
  intro h
  obtain ⟨analysis, t, hphase⟩ := analysed
  have hjobs : (execute (environment [] "") (clients (.error "Connection refused")).deliver job
      database).2.jobs = database.jobs := rfl
  obtain ⟨row, hrow, hstatus, -⟩ :=
    (h table _ (clients (.error "Connection refused")) job job database analysis t rfl get_job rfl
      hphase).2.completed
  rw [hjobs, get_job] at hrow
  cases hrow
  cases hstatus

end Settlement

end LiberNovus.Runtime

import LiberNovus.Analysis.Outcomes
import LiberNovus.Runtime.Settlement

/-! What a failed execution leaves in the database. The handlers commit the transaction of the
work that raised, so its writes would stay; but those on threads, analyses and memories come
last, and either a savepoint undoes them or they leave the session unusable.

Proved: when an execution returns a failed or requeued job, the tables are those that others
have left, but for the row of the job and the cached summary of its session. -/

namespace LiberNovus.Runtime

open Rows Session Analysis Analysis.Pipeline Memory UnitOfWork

/-! ### The traces of an execution -/

/-- The tables differ at most in the row of the job and the summary of its session. -/
structure SameBut (job : AnalysisJob) (db after : Database) : Prop where
  sessions : after.sessions = db.sessions
  dreams : after.dreams = db.dreams
  turns : after.turns = db.turns
  threads : after.threads = db.threads
  analyses : after.analyses = db.analyses
  memories : after.memories = db.memories
  traces : after.traces = db.traces
  jobs : delete after.jobs job.id = delete db.jobs job.id
  summaries : (after.summaries.filter fun summary => summary.sessionId ≠ job.sessionId) =
    db.summaries.filter fun summary => summary.sessionId ≠ job.sessionId

theorem SameBut.refl (job : AnalysisJob) (db : Database) : SameBut job db db :=
  ⟨rfl, rfl, rfl, rfl, rfl, rfl, rfl, rfl, rfl⟩

/-- Others commit something while the execution waits. -/
def Commits (env : Environment) (db after : Database) : Prop :=
  ∃ await, after = env.committing await db

/-- What others commit does not depend on what the execution has not committed, and keeps the
primary key of the threads. -/
structure Unseeing (env : Environment) (job : AnalysisJob) : Prop where
  same : ∀ await db after, SameBut job db after →
    SameBut job (env.committing await db) (env.committing await after)
  keys : ∀ await db, DistinctKeys db.threads → DistinctKeys (env.committing await db).threads

/-- The execution has written nothing but the summary. -/
structure Untraced (job : AnalysisJob) (s : AsyncSession Database) : Prop where
  same : SameBut job s.committed s.tables
  keys : DistinctKeys s.tables.threads
  usable : s.usable = true

section Phases

variable [CharTable] {env : Environment} {job : AnalysisJob} {s t : AsyncSession Database}

omit [CharTable] in
theorem untraced_wait (henv : Unseeing env job) (await : Await) (s : AsyncSession Database)
    (h : Untraced job s) : Untraced job (env.waited await s) :=
  ⟨henv.same await _ _ h.same, henv.keys await _ h.keys, h.usable⟩

theorem prepares_untraced (henv : Unseeing env job) :
    Prepares env job.sessionId (Untraced job) where
  usable _ h := h.usable
  keys _ h := h.keys
  wait := untraced_wait henv
  load s context summaries h hload := by
    have hsummaries : (summaries.filter fun summary => summary.sessionId ≠ job.sessionId) =
        s.tables.summaries.filter fun summary => summary.sessionId ≠ job.sessionId := by
      rcases cachedSummary_ok (loadAnalysisInput_ok hload).2.2 with ⟨-, rfl⟩ | ⟨-, rfl, hid, -⟩
      · rfl
      · simp [List.filter_append, hid]
    exact ⟨{ h.same with summaries := hsummaries.trans h.same.summaries }, h.keys, h.usable⟩

omit [CharTable] in
theorem preserves_require {α : Type} (read : Database → Option α) (missing : Exc) :
    Tx.Preserves (Untraced job) (require read missing) := by
  refine .statement fun s a after h he => ?_
  split at he <;> cases he
  exact h

omit [CharTable] in
theorem preserves_assembleDreamMemory (henv : Unseeing env job) :
    Tx.Preserves (Untraced job) (assembleDreamMemory env job.sessionId job.dreamId) :=
  .bind (.lift _) fun _ => .bind (preserves_require _ _) fun _ =>
    .bind (.bind (preserves_require _ _) fun _ =>
      .bind (.bind (preserves_require _ _) fun _ => .bind (preserves_require _ _) fun _ =>
        .bind (preserves_generate (untraced_wait henv) _ _ _) fun _ => .bind (.lift _) fun _ =>
        .bind (.lift _) fun _ => .lift _) fun _ => .pure _) fun _ => .pure _

/-- The phase of a dream memory. -/
theorem untraced_memory (henv : Unseeing env job) (hd : job.dreamId.isSome = true)
    (hs : Untraced job s) {e : RunError} (h : executeWithJobBinding env job s = (.error e, t))
    (ht : t.usable = true) (he : e ≠ .raised .memoryOnlyComplete) : Untraced job t := by
  rw [executeWithJobBinding_memory hd] at h
  rcases Tx.bind_eq_error.mp h with h | ⟨_, _, _, h⟩
  · rcases Tx.bind_eq_error.mp h with h | ⟨r, s₁, ha, h⟩
    · have hassemble := preserves_assembleDreamMemory henv s hs
      rwa [h] at hassemble
    · have hassemble := preserves_assembleDreamMemory henv s hs
      rw [ha] at hassemble
      -- the upsert returns, or its flush leaves the session unusable
      by_cases hc : env.conflict .saveMemory = none
      · obtain ⟨row, s₂, hup, -⟩ := upsert_ok hassemble.usable hc
        cases h.symm.trans (Tx.bind_ok hup)
      · obtain ⟨e', s₂, hup, hs₂⟩ := Tx.Breaks.bind (upsert_conflict hassemble.usable hc)
        cases h.symm.trans hup
        rw [hs₂] at ht
        cases ht
  · cases h
    exact absurd rfl he

/-- The phase of an analysis. -/
theorem untraced_analysis (henv : Unseeing env job) (hd : job.dreamId = none)
    (hs : Untraced job s) {e : RunError} (h : executeWithJobBinding env job s = (.error e, t))
    (ht : t.usable = true) : Untraced job t := by
  rw [executeWithJobBinding_analysis hd] at h
  rcases prepareSessionAnalysis_cases (prepares_untraced henv) hs job.mode with
    ⟨e', s₁, hs₁, hprepare⟩ | ⟨s₁, reresolve, prepared, after, hs₁, hres, hid, hprepare⟩
  · have hphase := Tx.bind_eq_error.mp h
    rcases hphase with hphase | ⟨a, s₂, hphase, -⟩
    · cases hphase.symm.trans (Tx.bind_error hprepare)
      exact hs₁
    · cases hphase.symm.trans (Tx.bind_error hprepare)
  · set u : AsyncSession Database := { s₁ with tables := { s₁.tables with threads := after } } with hu
    have hus : u.usable = true := hs₁.usable
    set row : SessionAnalysis := { buildSessionAnalysisRow u.tables.analyses prepared env.analysisId
      env.startedAt with analysisJobId := some job.id } with hrow
    have hassemble : assembleRuntimeAnalysis env job s = (.ok (row, prepared.thread), u) := by
      refine (Tx.bind_ok hprepare).trans ((Tx.bind_ok (Tx.query_ok hus _)).trans ?_)
      exact Tx.bind_ok (by rw [bindJob_build]; exact Tx.lift_ok _)
    have hphase := h.symm.trans ((Tx.bind_ok hassemble).trans (Tx.bind_ok (env.others_ok .store u)))
    have hcheck : checkTarget prepared.thread row = .ok () :=
      checkTarget_ok rfl (hid.trans hres.activeIn.2.1.symm)
    rcases persist_cases env prepared.thread row (s := env.waited .store u) hus with
      ⟨e', hc, -⟩ | ⟨e', v, hp, hv⟩ | hp
    · rw [hcheck] at hc
      cases hc
    · cases hphase.trans hp
      rw [hv] at ht
      cases ht
    · cases hphase.trans hp

/-- Whatever the phase of the job raises, it has left no trace when the session is usable. -/
theorem untraced_of_raised (henv : Unseeing env job) (hs : Untraced job s) {e : RunError}
    (h : executeWithJobBinding env job s = (.error e, t)) (ht : t.usable = true)
    (he : e ≠ .raised .memoryOnlyComplete) : Untraced job t := by
  by_cases hd : job.dreamId.isSome = true
  · exact untraced_memory henv hd hs h ht he
  · exact untraced_analysis henv (by simpa using hd) hs h ht

end Phases

/-! ### What others commit meanwhile -/

section Exposed

variable {env : Environment}

theorem exposes_others (await : Await) : Tx.Exposes (Commits env) (env.others await) :=
  .interleave fun _ => ⟨await, rfl⟩

theorem exposes_generate (prompt promptVersion : String) (temperature : Option ℚ) :
    Tx.Exposes (Commits env) (env.generate prompt promptVersion temperature) :=
  .bind (.lift _) fun _ => .bind (exposes_others _) fun _ => .lift _

theorem exposes_resolveRound (sessionId : Uuid) (mode : AnalysisMode) (reresolve : Bool) :
    Tx.Exposes (Commits env) (resolveRound env sessionId mode reresolve) :=
  .bind (.query _) fun _ => .bind (.lift _) fun _ => .bind (.query _) fun _ =>
    .bind (.nested ((alone_applyTransitionTx _).mono fun _ _ h => h.elim)) fun _ => .pure _

theorem exposes_resolveThreadForAnalysis (sessionId : Uuid) (mode : AnalysisMode) :
    Tx.Exposes (Commits env) (resolveThreadForAnalysis env sessionId mode) := by
  refine .bind (.attempt (exposes_resolveRound _ _ _)) fun r => ?_
  split
  · exact .pure _
  · exact .bind (exposes_others _) fun _ => exposes_resolveRound _ _ _
  · exact .fail _

theorem exposes_upsertDreamMemory (dreamId : ℕ) (sessionId : Uuid) (userId : ℤ)
    (memory : StructuredDreamMemoryV1) (analysisJobId : Option Uuid) :
    Tx.Exposes (Commits env)
      (upsertDreamMemory env dreamId sessionId userId memory analysisJobId) := by
  refine .bind (.query _) fun existing => ?_
  cases existing with
  | none => exact .bind (.flush _ _) fun _ => .pure _
  | some row => exact .bind (.flush _ _) fun _ => .pure _

theorem exposes_assembleDreamMemory (sessionId : Uuid) (dreamId : Option ℕ) :
    Tx.Exposes (Commits env) (assembleDreamMemory env sessionId dreamId) :=
  .bind (.lift _) fun _ => .bind (.statement _) fun _ =>
    .bind (.bind (.statement _) fun _ =>
      .bind (.bind (.statement _) fun _ => .bind (.statement _) fun _ =>
        .bind (exposes_generate _ _ _) fun _ => .bind (.lift _) fun _ => .bind (.lift _) fun _ =>
        .lift _) fun _ => .pure _) fun _ => .pure _

variable [CharTable]

theorem exposes_executeWithJobBinding (job : AnalysisJob) :
    Tx.Exposes (Commits env) (executeWithJobBinding env job) := by
  unfold executeWithJobBinding
  split
  · exact .bind (.bind (exposes_assembleDreamMemory _ _) fun _ =>
      .bind (exposes_upsertDreamMemory _ _ _ _ _) fun _ => .pure _) fun _ => .raise _
  · refine .bind (.bind (.bind (.statement _) fun _ => .bind (exposes_generate _ _ _) fun _ =>
      .bind (.lift _) fun _ => .bind (.lift _) fun _ =>
      .bind (exposes_resolveThreadForAnalysis _ _) fun _ => .pure _) fun _ =>
      .bind (.query _) fun _ => .bind (.lift _) fun _ => .pure _) fun _ => ?_
    exact .bind (exposes_others _) fun _ =>
      (exposes_persist _ _ _).mono fun _ _ h => ⟨_, h⟩

end Exposed

/-! ### The calls of the queue service -/

section Calls

variable {jobId : Uuid} {fin : Queue.Finish} {s t : AsyncSession Database}

theorem callQueue_eq_ok {result : AnalysisJob} (h : callQueue jobId fin s = (.ok result, t)) :
    s.usable = true ∧ result.status = fin.status ∧
      t = { s with tables := { s.tables with jobs := modify s.tables.jobs jobId fin.write } } := by
  unfold callQueue Tx.statement at h
  split at h
  · next hs =>
    cases hc : fin.call s.tables.jobs jobId with
    | error e =>
      simp only [hc] at h
      cases h
    | ok r =>
      simp only [hc] at h
      rw [Queue.Finish.call_eq, transition_ok] at hc
      obtain ⟨row, -, -, rfl⟩ := hc
      cases h
      exact ⟨hs, Queue.Finish.write_status fin row, rfl⟩
  · cases h

/-- A call that is refused changes nothing, and every other one is refused as well. -/
theorem callQueue_eq_error {e : RunError} (h : callQueue jobId fin s = (.error e, t))
    (fin' : Queue.Finish) : t = s ∧ ∃ e', callQueue jobId fin' s = (.error e', s) := by
  cases hs : s.usable with
  | false =>
    rw [callQueue_unusable hs] at h
    cases h
    exact ⟨rfl, _, callQueue_unusable hs⟩
  | true =>
    unfold callQueue Tx.statement at h ⊢
    rw [if_pos hs] at h ⊢
    cases hc : fin.call s.tables.jobs jobId with
    | ok r =>
      simp only [hc] at h
      cases h
    | error e₁ =>
      simp only [hc] at h
      cases h
      refine ⟨rfl, ?_⟩
      -- the row is missing or not running, whatever the call
      have hc' : ∃ e₂, fin'.call s.tables.jobs jobId = .error e₂ := by
        rw [Queue.Finish.call_eq, transition_error] at hc
        rcases hc with ⟨hg, -⟩ | ⟨row, hg, hrun, -⟩
        · exact ⟨_, by rw [Queue.Finish.call_eq]; exact transition_error.mpr (.inl ⟨hg, rfl⟩)⟩
        · refine ⟨.cannot fin'.verb row.status, ?_⟩
          rw [Queue.Finish.call_eq]
          exact transition_error.mpr (.inr ⟨row, hg, hrun, rfl⟩)
      obtain ⟨e₂, hc'⟩ := hc'
      exact ⟨.raised (.transition e₂), by simp only [hc']⟩

end Calls

/-! ### Failed executions -/

section Failed

variable [CharTable] {env : Environment}
  {deliver : AnalysisJob → SessionAnalysis → Except String Unit} {job result : AnalysisJob}
  {db after : Database} {s t : AsyncSession Database}

/-- A job that is returned failed or queued again was so by a handler. -/
theorem handled_of_failed (h : executeAnalysisJob env deliver job s = (.ok result, t))
    (hstatus : result.status = .failed ∨ result.status = .queued) :
    ∃ e u, executeWithJobBinding env job s = (.error e, u) ∧ e ≠ .raised .memoryOnlyComplete ∧
      callQueue job.id (handleFailure env job e) u = (.ok result, t) := by
  have hdone : ∀ threadId now, result.status ≠ (Queue.Finish.markCompleted threadId now).status := by
    intro threadId now hs
    rw [hs] at hstatus
    rcases hstatus with hs | hs <;> cases hs
  rcases hx : executeWithJobBinding env job s with ⟨e | analysis, u⟩
  · by_cases he : e = .raised .memoryOnlyComplete
    · subst he
      have hattempt : attemptJob env job s = (callQueue job.id (.markCompleted none env.finishedAt) >>=
          fun completed => pure (.memoryOnly completed)) u := Tx.bind_ok (Tx.attempt_error hx)
      rcases hc : callQueue job.id (.markCompleted none env.finishedAt) u with ⟨e | completed, v⟩
      · obtain ⟨rfl, e', hc'⟩ := callQueue_eq_error hc (handleFailure env job e)
        cases h.symm.trans ((Tx.bind_ok (Tx.attempt_error
          (hattempt.trans (Tx.bind_error hc)))).trans hc')
      · cases h.symm.trans (Tx.bind_ok (Tx.attempt_ok (hattempt.trans (Tx.bind_ok hc))))
        exact absurd (callQueue_eq_ok hc).2.1 (hdone _ _)
    · refine ⟨e, u, rfl, he, ?_⟩
      exact (Tx.bind_ok (Tx.attempt_error (attemptJob_raised he hx))).symm.trans h
  · have hattempt : attemptJob env job s = (.ok (.analysed analysis), u) :=
      Tx.bind_ok (Tx.attempt_ok hx)
    have hexec := h.symm.trans (Tx.bind_ok (Tx.attempt_ok hattempt))
    rcases hc : callQueue job.id (.markCompleted (some analysis.threadId) env.finishedAt) u with
      ⟨e | completed, v⟩
    · cases hexec.trans (Tx.bind_error hc)
    · have hcompleted := (hexec.trans (Tx.bind_ok hc)).symm
      split at hcompleted
      · obtain ⟨x, w, -, hpure⟩ := Tx.bind_eq_ok.mp hcompleted
        cases hpure
        exact absurd (callQueue_eq_ok hc).2.1 (hdone _ _)
      · cases hcompleted
        exact absurd (callQueue_eq_ok hc).2.1 (hdone _ _)

omit [CharTable] in
theorem eq_of_nobody (hnobody : ∀ await db, env.committing await db = db)
    (h : Relation.ReflTransGen (Commits env) db after) : after = db := by
  induction h with
  | refl => rfl
  | tail _ hstep ih =>
    obtain ⟨await, rfl⟩ := hstep
    rw [hnobody, ih]

/-- `execute_analysis_job` that returns a failed or queued job: but for its row and the cached
summary, the database is as others have left it meanwhile, and as before when they have left
it alone. -/
theorem failed_leaves_no_trace (henv : Unseeing env job) (hu : DistinctKeys db.threads)
    (h : execute env deliver job db = (.ok result, after))
    (hstatus : result.status = .failed ∨ result.status = .queued) :
    (∃ others, Relation.ReflTransGen (Commits env) db others ∧ SameBut job others after) ∧
      ((∀ await db, env.committing await db = db) → SameBut job db after) := by
  obtain ⟨s, hs, rfl⟩ : ∃ s, executeAnalysisJob env deliver job (.opened db) = (.ok result, s) ∧
      s.tables = after := by
    unfold execute Tx.transaction at h
    split at h
    · next r s hr =>
      split at h <;> cases h
      exact ⟨s, hr, rfl⟩
    · cases h
  obtain ⟨e, u, hraised, he, hcall⟩ := handled_of_failed hs hstatus
  obtain ⟨husable, -, rfl⟩ := callQueue_eq_ok hcall
  have hopened : Untraced job (.opened db) := ⟨.refl job db, hu, rfl⟩
  have huntraced := untraced_of_raised henv hopened hraised husable he
  have hcommitted : Relation.ReflTransGen (Commits env) db u.committed := by
    have hexposes : Tx.Exposes (Commits env) (executeWithJobBinding env job) :=
      exposes_executeWithJobBinding job
    have hexposed := hexposes (.opened db)
    rwa [hraised] at hexposed
  have hsame : SameBut job u.committed
      { u.tables with
        jobs := modify u.tables.jobs job.id (handleFailure env job e).write } := by
    refine { huntraced.same with jobs := ?_ }
    rw [← huntraced.same.jobs]
    exact delete_modify (Queue.write_id _) _
  refine ⟨⟨u.committed, hcommitted, hsame⟩, fun hnobody => ?_⟩
  rwa [eq_of_nobody hnobody hcommitted] at hsame

end Failed

/-! ### Example -/

namespace Settlement

local instance : CharTable := table

/-- The provider cannot be reached. -/
def unreachable : Environment :=
  { environment [] "" with
    getProvider := .ok ⟨fun _ _ _ _ => .error (.transport "LLM timeout")⟩ }

theorem requeued_leaves_no_trace : ∃ result after,
    execute unreachable noDelivery job database = (.ok result, after) ∧ result.status = .queued ∧
      (∃ others, Relation.ReflTransGen (Commits unreachable) database others ∧
        SameBut job others after) ∧
      ((∀ await db, unreachable.committing await db = db) → SameBut job database after) := by
  have henv : Unseeing unreachable job := ⟨fun _ _ _ h => h, fun _ _ h => h⟩
  obtain ⟨result, after, h, hs⟩ : ∃ result after,
      execute unreachable noDelivery job database = (.ok result, after) ∧ result.status = .queued :=
    ⟨_, _, rfl, rfl⟩
  exact ⟨result, after, h, hs, failed_leaves_no_trace henv distinctKeys_nil h (.inr hs)⟩

end Settlement

end LiberNovus.Runtime

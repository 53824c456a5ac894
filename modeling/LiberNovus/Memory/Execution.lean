import LiberNovus.Foundation.Triples
import LiberNovus.Runtime.Atomicity

/-! One execution of the job of a dream, with nobody else at work.

Proved: it is rolled back, or it puts the job off or fails it and writes nothing, or it completes
the job and writes the memory. -/

namespace LiberNovus.Memory

open Rows UnitOfWork Session Analysis LiberNovus.Runtime

/-! ### The upsert -/

section Execution

variable (env : Environment) (dreamId : ℕ) (sessionId : Uuid) (userId : ℤ)
  (memory : StructuredDreamMemoryV1) (analysisJobId : Option Uuid)

/-- The table behind `upsert_dream_memory`. -/
def upserted (memories : List DreamMemory) : List DreamMemory :=
  match memories.find? fun row => row.dreamId = dreamId with
  | none => memories ++ [⟨env.memoryId, dreamId, sessionId, userId, memoryVersion, memory,
      analysisJobId, env.startedAt⟩]
  | some existing => memories.map fun row => if row.id = existing.id then
      { existing with
        memoryJson := memory
        memoryVersion := memoryVersion
        analysisJobId := analysisJobId.or existing.analysisJobId }
      else row

variable {env} {s : AsyncSession Database}

theorem upsertDreamMemory_tables (hs : s.usable = true) (hc : env.conflict .saveMemory = none) :
    ∃ row, upsertDreamMemory env dreamId sessionId userId memory analysisJobId s = (.ok row,
      { s with tables := { s.tables with
          memories := upserted env dreamId sessionId userId memory analysisJobId s.tables.memories } }) := by
  unfold upsertDreamMemory
  rw [Tx.bind_ok (Tx.query_ok hs _)]
  cases hfind : s.tables.memories.find? fun row => row.dreamId = dreamId with
  | none =>
    simp only [upserted, hfind]
    exact ⟨_, Tx.bind_ok (Environment.flush_ok hs hc)⟩
  | some existing =>
    simp only [upserted, hfind]
    exact ⟨_, Tx.bind_ok (Environment.flush_ok hs hc)⟩

variable {sessionId}

/-- No exception of the assembly is taken for the end of the job. -/
theorem throws_assembleDreamMemory (dreamId : Option ℕ) :
    Throws (fun e => e ≠ .raised .memoryOnlyComplete)
      (assembleDreamMemory env sessionId dreamId) := by
  have hrequire : ∀ {α : Type} (read : Database → Option α) (missing : Exc),
      missing ≠ .memoryOnlyComplete → Throws (fun e => e ≠ .raised .memoryOnlyComplete)
        (require read missing) := by
    intro α read missing hne
    refine .statement (by simp) fun db e he => ?_
    split at he <;> cases he
    simpa using hne
  have hmapped : ∀ {α ε' : Type} (x : Except ε' α) (f : ε' → Exc), (∀ e, f e ≠ .memoryOnlyComplete) →
      Throws (σ := Database) (fun e => e ≠ .raised .memoryOnlyComplete) (Tx.lift (x.mapError f)) := by
    intro α ε' x f hf
    refine .lift fun e he => ?_
    cases x <;> cases he
    simpa using hf _
  refine .bind (.lift fun e he => ?_) fun dreamId => .bind (hrequire _ _ (by simp [sessionMissing]))
    fun session => .bind (.bind (hrequire _ _ (by simp [dreamMissing])) fun dream =>
      .bind (.bind (hrequire _ _ (by simp [sessionMissing])) fun session =>
        .bind (hrequire _ _ (by simp [dreamMissing])) fun dream =>
          .bind (.bind (hmapped _ _ (by simp)) fun llm => .bind (.interleave _) fun _ =>
            hmapped _ _ fun e => by cases e <;> simp [Exc.ofProvider]) fun raw =>
          .bind (hmapped _ _ (by simp)) fun payload => .bind (hmapped _ _ (by simp)) fun memory =>
            hmapped _ _ (by simp)) fun memory => .pure _) fun memory => .pure _
  split at he <;> cases he
  simp

/-! ### The executor -/

/-- The tables behind an execution of the job of a dream. -/
inductive Ends (env : Environment) (job : AnalysisJob) (dreamId : ℕ) (db : Database) : Database → Prop
  | rolledBack : Ends env job dreamId db db
  | unfinished (fin : Queue.Finish) (hfin : fin.status ≠ .completed) (row : AnalysisJob)
      (hrow : get db.jobs job.id = some row) (hrun : row.status = .running) :
      Ends env job dreamId db { db with jobs := modify db.jobs job.id fin.write }
  | completed (row : AnalysisJob) (hrow : get db.jobs job.id = some row) (hrun : row.status = .running)
      (session : DreamSession) (hsession : get db.sessions job.sessionId = some session)
      (dream : Dream) (hdream : findDream db.dreams dreamId job.sessionId = some dream)
      (memory : StructuredDreamMemoryV1) :
      Ends env job dreamId db { db with
        jobs := modify db.jobs job.id (AnalysisJob.completed none env.finishedAt)
        memories := upserted env dreamId job.sessionId session.userId memory (some job.id) db.memories }

theorem handleFailure_status (job : AnalysisJob) (e : RunError) :
    (handleFailure env job e).status ≠ .completed := by
  unfold handleFailure
  split
  · unfold Queue.handleRetryableFailure
    split <;> simp [Queue.Finish.status]
  · simp [Queue.Finish.status]

variable {job : AnalysisJob} {db : Database}

/-- A call of the queue service goes through on a running row. -/
theorem callQueue_cases (jobId : Uuid) (fin : Queue.Finish) (hs : s.usable = true) :
    (∃ e, callQueue jobId fin s = (.error e, s)) ∨
      ∃ row, get s.tables.jobs jobId = some row ∧ row.status = .running ∧
        callQueue jobId fin s = (.ok (fin.write row),
          { s with tables := { s.tables with jobs := modify s.tables.jobs jobId fin.write } }) := by
  by_cases h : ∃ row, get s.tables.jobs jobId = some row ∧ row.status = .running
  · obtain ⟨row, hrow, hrun⟩ := h
    exact .inr ⟨row, hrow, hrun, callQueue_ok hs hrow hrun⟩
  · left
    obtain ⟨e, he⟩ : ∃ e, fin.call s.tables.jobs jobId = .error e := by
      cases hcall : fin.call s.tables.jobs jobId with
      | error e => exact ⟨e, rfl⟩
      | ok r =>
        rw [Queue.Finish.call_eq, transition_ok] at hcall
        obtain ⟨row, hrow, hrun, -⟩ := hcall
        exact absurd ⟨row, hrow, hrun⟩ h
    exact ⟨.raised (.transition e), by simp [callQueue, Tx.statement, hs, he]⟩

variable [CharTable] (deliver : AnalysisJob → SessionAnalysis → Except String Unit)

/-- The handler at the end, in the session that the `try` has left. -/
theorem execute_attempt_error {e : RunError}
    (h : attemptJob env job (.opened db) = (.error e, s)) (hcommitted : s.committed = db) :
    (execute env deliver job db).2 = db ∨ s.usable = true ∧
      ∃ row, get s.tables.jobs job.id = some row ∧ row.status = .running ∧
        (execute env deliver job db).2 =
          { s.tables with jobs := modify s.tables.jobs job.id (handleFailure env job e).write } := by
  have hexec : executeAnalysisJob env deliver job (.opened db) =
      callQueue job.id (handleFailure env job e) s := Tx.bind_ok (Tx.attempt_error h)
  cases hs : s.usable with
  | false =>
    rw [callQueue_unusable hs] at hexec
    left
    rw [execute, Tx.transaction_error hexec, hcommitted]
  | true =>
    rcases callQueue_cases job.id (handleFailure env job e) hs with
      ⟨e', hcall⟩ | ⟨row, hrow, hrun, hcall⟩ <;> rw [hcall] at hexec
    · left
      rw [execute, Tx.transaction_error hexec, hcommitted]
    · exact .inr ⟨rfl, row, hrow, hrun, by rw [execute, Tx.transaction_ok hexec hs]⟩

/-- The end of a job that has its memory. -/
theorem execute_memory_only (hs : s.usable = true) (hcommitted : s.committed = db)
    (h : executeWithJobBinding env job (.opened db) = (.error (.raised .memoryOnlyComplete), s)) :
    (execute env deliver job db).2 = db ∨ ∃ row, get s.tables.jobs job.id = some row ∧
      row.status = .running ∧ (execute env deliver job db).2 = { s.tables with
        jobs := modify s.tables.jobs job.id (AnalysisJob.completed none env.finishedAt) } := by
  have hattempt : attemptJob env job (.opened db) = (callQueue job.id
      (.markCompleted none env.finishedAt) >>= fun completed => pure (.memoryOnly completed)) s :=
    Tx.bind_ok (Tx.attempt_error h)
  rcases callQueue_cases job.id (.markCompleted none env.finishedAt) hs with
    ⟨e, hcall⟩ | ⟨row, hrow, hrun, hcall⟩
  · rcases execute_attempt_error deliver (hattempt.trans (Tx.bind_error hcall))
      hcommitted with hsame | ⟨-, row, hrow, hrun, -⟩
    · exact .inl hsame
    · rw [callQueue_ok hs hrow hrun] at hcall
      cases hcall
  · have hexec : executeAnalysisJob env deliver job (.opened db) = (.ok _, _) :=
      Tx.bind_ok (Tx.attempt_ok (hattempt.trans (Tx.bind_ok hcall)))
    exact .inr ⟨row, hrow, hrun, by rw [execute, Tx.transaction_ok hexec hs]; rfl⟩

/-- A job whose phase breaks the session is rolled back. -/
theorem execute_broken_same (hnobody : ∀ await db, env.committing await db = db)
    (h : Tx.Breaks (executeWithJobBinding env job) (.opened db)) :
    (execute env deliver job db).2 = db := by
  obtain ⟨e, s, h, hs⟩ := h
  have hcommitted : s.committed = db := by
    have hexposes : Tx.Exposes (Commits env) (executeWithJobBinding env job) :=
      exposes_executeWithJobBinding job
    have hexposed := hexposes (.opened db)
    rw [h] at hexposed
    exact eq_of_nobody hnobody hexposed
  have hattempt : ∃ e', attemptJob env job (.opened db) = (.error e', s) := by
    by_cases he : e = .raised .memoryOnlyComplete
    · subst he
      exact ⟨_, (Tx.bind_ok (Tx.attempt_error h)).trans (Tx.bind_error (callQueue_unusable hs))⟩
    · exact ⟨e, attemptJob_raised he h⟩
  obtain ⟨e', hattempt⟩ := hattempt
  rcases execute_attempt_error deliver hattempt hcommitted with hsame | ⟨hs', -⟩
  · exact hsame
  · rw [hs] at hs'
    cases hs'

omit [CharTable] in
/-- The rows that the memory of a dream is assembled from. -/
theorem assembleDreamMemory_rows {dreamId : ℕ}
    {r : DreamSession × ℕ × StructuredDreamMemoryV1}
    (h : assembleDreamMemory env job.sessionId (some dreamId) (.opened db) = (.ok r, s)) :
    get db.sessions job.sessionId = some r.1 ∧ r.2.1 = dreamId ∧
      ∃ dream, findDream db.dreams dreamId job.sessionId = some dream := by
  obtain ⟨k, s₁, hk, h⟩ := Tx.bind_eq_ok.mp h
  cases hk
  obtain ⟨session, s₂, hsession, h⟩ := Tx.bind_eq_ok.mp h
  obtain ⟨hget, rfl⟩ := require_ok hsession
  obtain ⟨memory, s₃, hmemory, h⟩ := Tx.bind_eq_ok.mp h
  cases h
  obtain ⟨dream, s₄, hdream, -⟩ := Tx.bind_eq_ok.mp hmemory
  exact ⟨hget, rfl, dream, (require_ok hdream).1⟩

theorem execute_ends (hnobody : ∀ await db, env.committing await db = db) {dreamId : ℕ}
    (hd : job.dreamId = some dreamId) : Ends env job dreamId db (execute env deliver job db).2 := by
  have hkeeps : Tx.Keeps (· = db) True (assembleDreamMemory env job.sessionId job.dreamId) :=
    keeps_assembleDreamMemory (fun await t ht => by rw [hnobody]; exact ht) _ _
  have hphase : executeWithJobBinding env job = (do
      executeDreamMemoryJob env job
      Tx.raise .memoryOnlyComplete) := executeWithJobBinding_memory (by simp [hd])
  rcases ha : assembleDreamMemory env job.sessionId job.dreamId (.opened db) with ⟨e | r, s⟩
  · have hs := hkeeps.opened rfl ha
    have hraised : executeWithJobBinding env job (.opened db) = (.error e, s) := by
      rw [hphase]
      exact Tx.bind_error (Tx.bind_error ha)
    have hne : e ≠ .raised .memoryOnlyComplete := throws_assembleDreamMemory _ _ _ _ ha
    rcases execute_attempt_error deliver (attemptJob_raised hne hraised) hs.committed with
      hsame | ⟨-, row, hrow, hrun, hafter⟩
    · rw [hsame]
      exact .rolledBack
    · rw [hs.tables] at hrow hafter
      rw [hafter]
      exact .unfinished _ (handleFailure_status job e) row hrow hrun
  · have hs := hkeeps.opened rfl ha
    have hus : s.usable = true := hs.usable trivial
    by_cases hc : env.conflict .saveMemory = none
    · obtain ⟨_, hup⟩ := upsertDreamMemory_tables r.2.1 job.sessionId r.1.userId r.2.2 (some job.id) hus hc
      have hjob : executeDreamMemoryJob env job (.opened db) = (.ok (), _) :=
        (Tx.bind_ok ha).trans (Tx.bind_ok hup)
      have hraised : executeWithJobBinding env job (.opened db) =
          (.error (.raised .memoryOnlyComplete), _) :=
        (congrFun hphase _).trans (Tx.bind_ok hjob)
      rw [hd] at ha
      obtain ⟨hsession, hid, dream, hdream⟩ := assembleDreamMemory_rows ha
      rcases execute_memory_only deliver (by exact hus) (by exact hs.committed)
        hraised with hsame | ⟨row, hrow, hrun, hafter⟩
      · rw [hsame]
        exact .rolledBack
      · rw [hafter, hs.tables, hid]
        simp only [hs.tables] at hrow
        exact .completed row hrow hrun r.1 hsession dream hdream r.2.2
    · rw [execute_broken_same deliver hnobody]
      · exact .rolledBack
      · rw [hphase]
        exact .bind (.bind_of_ok ha (.bind (upsert_conflict hus hc)))

end Execution

end LiberNovus.Memory

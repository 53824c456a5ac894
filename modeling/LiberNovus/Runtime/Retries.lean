import Mathlib.Algebra.Order.Floor.Div
import Mathlib.Data.ENat.Lattice
import LiberNovus.Runtime.Acquisition
import LiberNovus.Runtime.Undisturbed

/-! The two levels of retries of an analysis job that nobody disturbs: the requests of one
execution, up to `L`, and the executions of the job, up to `M`.

Proved: of a stream of outcomes in which number `k` is the first that is no transport error,
exactly `min k (L * M)` are asked for, and the attempts, the status and the retryable flag that
the job ends with follow from `k` and that outcome, exactly when the outcome can be stored. A
valid text that the database refuses leaves the job running for ever. -/

namespace LiberNovus.Runtime.Retries

open Rows Session Analysis Analysis.Pipeline UnitOfWork

/-- The arguments of a poll, and what the execution after it draws. -/
structure Round where
  limit : ℤ
  lockedBy : String
  now : Time
  staleTimeoutSeconds : Option ℤ
  configured : ℤ
  draws : Environment

/-- The database, and how often the provider has been called. -/
structure State where
  db : Database
  called : ℕ

def Round.poll (round : Round) (jobs : List AnalysisJob) : List AnalysisJob × List AnalysisJob :=
  acquireAvailableJobs jobs round.limit round.lockedBy round.now round.staleTimeoutSeconds
    round.configured fun _ => false

section Rounds

variable [CharTable] (service : Service) (jobId : Uuid)

/-- A round: the job is executed if the poll acquires it. -/
def turn (state : State) (round : Round) : State :=
  let (acquired, jobs) := round.poll state.db.jobs
  let db := { state.db with jobs := jobs }
  match get acquired jobId with
  | none => ⟨db, state.called⟩
  | some job =>
    let env := service.environment state.called round.draws
    ⟨(execute env noDelivery job db).2, state.called + providerCalls env job db⟩

/-- The state after a number of rounds. -/
def after (db : Database) (rounds : ℕ → Round) : ℕ → State
  | 0 => ⟨db, 0⟩
  | n + 1 => turn service jobId (after db rounds n) (rounds n)

omit [CharTable] in
def Ended (state : State) : Prop :=
  ∃ row, get state.db.jobs jobId = some row ∧ (row.status = .completed ∨ row.status = .failed)

omit [CharTable] in
/-- The job waits in the queue. -/
def Waits (state : State) : Prop :=
  ∃ row, get state.db.jobs jobId = some row ∧ row.status = .queued

omit [CharTable] in
/-- The poll finds the lock on the job stale. -/
def Recovers (state : State) (round : Round) : Prop :=
  0 < round.limit ∧ ∃ row, get state.db.jobs jobId = some row ∧
    row.Stale (round.now - seconds (staleSeconds round.staleTimeoutSeconds round.configured))

end Rounds

/-- A queued analysis job of an active session that has never been acquired. -/
structure Enqueued (db : Database) (job : AnalysisJob) (session : DreamSession) : Prop where
  jobs : DistinctKeys db.jobs
  threads : DistinctKeys db.threads
  stored : get db.jobs job.id = some job
  status : job.status = .queued
  attempts : job.attempts = 0
  analysis : job.dreamId = none
  found : get db.sessions job.sessionId = some session
  active : session.status = .active

/-- `max(1, job.max_attempts)`. -/
def budget (job : AnalysisJob) : ℕ := (max 1 job.maxAttempts).toNat

/-- The first outcome that is no transport error is number `k`, counted from one; infinity
when there is none. -/
def FirstAnswer (outcomes : ℕ → Except ProviderError ProviderRawResponse) (k : ℕ∞) : Prop :=
  (∀ n : ℕ, 0 < n → n < k → Transport (outcomes n)) ∧
    ∀ n : ℕ, k = n → 0 < n ∧ ¬ Transport (outcomes n)

/-- All outcomes up to number `n` are transport errors. -/
def Refused (outcomes : ℕ → Except ProviderError ProviderRawResponse) (n : ℕ) : Prop :=
  ∀ i, 0 < i → i ≤ n → Transport (outcomes i)

theorem Refused.succ {outcomes : ℕ → Except ProviderError ProviderRawResponse} {n : ℕ}
    (h : Refused outcomes (n - 1)) (ht : Transport (outcomes n)) : Refused outcomes n := by
  intro i hi hle
  rcases Nat.lt_or_ge i n with hlt | hge
  · exact h i hi (by omega)
  · obtain rfl : i = n := by omega
    exact ht

section Endings

variable {service : Service} {k : ℕ∞} {M r called : ℕ} {row : AnalysisJob}

theorem exists_firstAnswer (outcomes : ℕ → Except ProviderError ProviderRawResponse) :
    ∃ k, FirstAnswer outcomes k := by
  classical
  by_cases h : ∃ n, 0 < n ∧ ¬ Transport (outcomes n)
  · refine ⟨(Nat.find h : ℕ), fun n hn hlt => ?_, fun n hn => ?_⟩
    · by_contra ht
      exact Nat.find_min h (Nat.cast_lt.mp hlt) ⟨hn, ht⟩
    · obtain rfl : Nat.find h = n := Nat.cast_injective hn
      exact Nat.find_spec h
  · refine ⟨⊤, fun n hn _ => ?_, fun n hn => absurd hn.symm (ENat.natCast_ne_top n)⟩
    by_contra ht
    exact h ⟨n, hn, ht⟩

/-- How a job ends in its execution number `r + 1`: with an answer, or with the last transport
error of the last execution. -/
structure EndsWith (service : Service) (M r : ℕ) (row : AnalysisJob) (called : ℕ) : Prop where
  attempts : row.attempts = r + 1
  within : r < M
  low : r * service.limit < called
  high : called ≤ (r + 1) * service.limit
  refused : Refused service.outcomes (called - 1)
  ending : ¬ Transport (service.outcomes called) ∧ row.retryable = false ∧
      service.Storable (service.outcomes called) ∧
      (service.Valid (service.outcomes called) ∧ row.status = .completed ∨
        ¬ service.Valid (service.outcomes called) ∧ row.status = .failed) ∨
    Transport (service.outcomes called) ∧ row.retryable = true ∧ row.status = .failed ∧
      called = service.limit * M

end Endings

/-! ### One round -/

section Round

variable (service : Service) (db : Database) (job : AnalysisJob)

/-- The job waits for its execution number `r + 1`. -/
structure Pending (r : ℕ) (state : State) : Prop where
  jobs : DistinctKeys state.db.jobs
  threads : state.db.threads = db.threads
  sessions : state.db.sessions = db.sessions
  row : ∃ row, get state.db.jobs job.id = some row ∧ row.status = .queued ∧ row.attempts = r ∧
    row.sessionId = job.sessionId ∧ row.dreamId = job.dreamId ∧ row.maxAttempts = job.maxAttempts
  called : state.called = r * service.limit
  refused : Refused service.outcomes (r * service.limit)
  within : r < budget job

structure Finished (state : State) : Prop where
  jobs : DistinctKeys state.db.jobs
  row : ∃ row r, get state.db.jobs job.id = some row ∧
    (row.status = .completed ∨ row.status = .failed) ∧
    EndsWith service (budget job) r row state.called

/-- The answer of the job is valid and cannot be stored: the job is running. -/
structure Stuck (state : State) : Prop where
  jobs : DistinctKeys state.db.jobs
  row : ∃ row, get state.db.jobs job.id = some row ∧ row.status = .running
  called : 0 < state.called
  within : state.called ≤ service.limit * budget job
  refused : Refused service.outcomes (state.called - 1)
  valid : service.Valid (service.outcomes state.called)
  unstorable : ¬ service.Storable (service.outcomes state.called)

variable {service db job} {state : State} {round : Round} {r : ℕ}

theorem not_transport_of_valid {outcome : Except ProviderError ProviderRawResponse}
    (h : service.Valid outcome) : ¬ Transport outcome := by
  rintro ⟨message, ht⟩
  obtain ⟨raw, _, _, hraw, -⟩ := h
  cases ht.symm.trans hraw

/-- The requests of an execution end with an answer, or with the last one. -/
theorem asked_eq (service : Service) (called : ℕ) :
    ∃ n, 0 < n ∧ n ≤ service.limit ∧
      (∀ i, 0 < i → i < n → Transport (service.outcomes (called + i))) ∧
      (n = service.limit ∨ ¬ Transport (service.outcomes (called + n))) ∧
      service.asked called = service.outcomes (called + n) ∧
      requested (fun n => service.outcomes (called + n)) 1 (service.limit - 1) = n := by
  classical
  have hpos : 0 < service.limit := Service.limit_pos
  have hstop : ∃ n, 0 < n ∧ n ≤ service.limit ∧
      (∀ i, 0 < i → i < n → Transport (service.outcomes (called + i))) ∧
      (n = service.limit ∨ ¬ Transport (service.outcomes (called + n))) := by
    by_cases h : ∃ n, 0 < n ∧ n ≤ service.limit ∧ ¬ Transport (service.outcomes (called + n))
    · obtain ⟨hn, hle, ht⟩ := Nat.find_spec h
      refine ⟨Nat.find h, hn, hle, fun i hi hlt => ?_, .inr ht⟩
      by_contra hi'
      exact Nat.find_min h hlt ⟨hi, by omega, hi'⟩
    · refine ⟨service.limit, hpos, le_rfl, fun i hi hlt => ?_, .inl rfl⟩
      by_contra hi'
      exact h ⟨i, hi, by omega, hi'⟩
  obtain ⟨n, hn, hle, hbefore, hend⟩ := hstop
  have hask : requests (fun n => service.outcomes (called + n)) 1 (service.limit - 1) =
        service.outcomes (called + n) ∧
      1 + requested (fun n => service.outcomes (called + n)) 1 (service.limit - 1) = n + 1 :=
    requests_eq hn (by omega) (fun i hi => hbefore i (by omega)) (hend.imp_left fun _ => by omega)
  exact ⟨n, hn, hle, hbefore, hend, hask.1, by omega⟩

variable [CharTable] {session : DreamSession}

theorem turn_not_acquired (hpoll : get (round.poll state.db.jobs).1 job.id = none) :
    turn service job.id state round =
      ⟨{ state.db with jobs := (round.poll state.db.jobs).2 }, state.called⟩ := by
  simp only [turn, hpoll]

/-- A poll that does not acquire the job leaves it waiting. -/
theorem Pending.not_acquired (h : Pending service db job r state)
    (hpoll : get (round.poll state.db.jobs).1 job.id = none) :
    Pending service db job r (turn service job.id state round) := by
  obtain ⟨row, hrow, hstatus, hrest⟩ := h.row
  have hrun : row.status ≠ .running := by simp [hstatus]
  rw [turn_not_acquired hpoll]
  exact ⟨distinctKeys_acquireAvailableJobs h.jobs _, h.threads, h.sessions,
    ⟨row, get_not_acquired h.jobs hrow (not_stale_of_not_running hrun _) hpoll, hstatus, hrest⟩,
    h.called, h.refused, h.within⟩

omit [CharTable] in
/-- What is asked for in an execution is all refused but for the last request. -/
theorem Pending.refused_before (h : Pending service db job r state) {n : ℕ}
    (hbefore : ∀ i, 0 < i → i < n → Transport (service.outcomes (state.called + i))) :
    Refused service.outcomes (state.called + n - 1) := by
  have hcalled := h.called
  intro i hi hile
  rcases Nat.lt_or_ge state.called i with hlt | hge
  · have hi' := hbefore (i - state.called) (by omega) (by omega)
    rwa [Nat.add_sub_cancel' hlt.le] at hi'
  · exact h.refused i hi (by omega)

/-- Execution number `r + 1` of the job, on the row as it was acquired: it makes `n` requests. -/
structure Underway (service : Service) (db : Database) (job : AnalysisJob) (session : DreamSession)
    (r called n : ℕ) (acquired : AnalysisJob) (locked : Database) : Prop where
  executable : Executable locked acquired acquired session
  keys : DistinctKeys locked.jobs
  threads : locked.threads = db.threads
  sessions : locked.sessions = db.sessions
  id : acquired.id = job.id
  attempts : acquired.attempts = r + 1
  maxAttempts : acquired.maxAttempts = job.maxAttempts
  sessionId : acquired.sessionId = job.sessionId
  dreamId : acquired.dreamId = job.dreamId
  within : r < budget job
  before : called = r * service.limit
  pos : 0 < n
  le : n ≤ service.limit
  refused : Refused service.outcomes (called + n - 1)
  asked : service.asked called = service.outcomes (called + n)
  last : n = service.limit ∨ ¬ Transport (service.outcomes (called + n))

section Underway

variable {locked after : Database} {acquired : AnalysisJob} {draws : Environment} {called n : ℕ}

omit [CharTable] in
/-- What a finishing call leaves in the row of the job. -/
theorem Underway.get_written (h : Underway service db job session r called n acquired locked)
    (fin : Queue.Finish) :
    get (modify locked.jobs acquired.id fin.write) job.id = some (fin.write acquired) := by
  rw [← h.id, get_modify (Queue.write_id fin), if_pos rfl, h.executable.stored, Option.map_some]

omit [CharTable] in
/-- A finishing call that completes or fails the job ends it. -/
theorem Underway.finished (h : Underway service db job session r called n acquired locked)
    (fin : Queue.Finish) (hjobs : after.jobs = modify locked.jobs acquired.id fin.write)
    (hending : ¬ Transport (service.outcomes (called + n)) ∧ (fin.write acquired).retryable = false ∧
        service.Storable (service.outcomes (called + n)) ∧
        (service.Valid (service.outcomes (called + n)) ∧ fin.status = .completed ∨
          ¬ service.Valid (service.outcomes (called + n)) ∧ fin.status = .failed) ∨
      Transport (service.outcomes (called + n)) ∧ (fin.write acquired).retryable = true ∧
        fin.status = .failed ∧ called + n = service.limit * budget job) :
    Finished service job ⟨after, called + n⟩ := by
  have hcalled := h.before
  have hpos := h.pos
  have hle := h.le
  have hnext : (r + 1) * service.limit = r * service.limit + service.limit := Nat.succ_mul _ _
  refine ⟨?_, fin.write acquired, r, ?_, ?_, ?_, h.within, by dsimp only; omega,
    by dsimp only; omega, h.refused, ?_⟩
  · dsimp only
    rw [hjobs]
    exact (distinctKeys_modify (Queue.write_id fin)).mpr h.keys
  · dsimp only
    rw [hjobs, h.get_written]
  · rw [Queue.Finish.write_status]
    rcases hending with ⟨-, -, -, ⟨-, hs⟩ | ⟨-, hs⟩⟩ | ⟨-, -, hs, -⟩
    · exact .inl hs
    · exact .inr hs
    · exact .inr hs
  · rw [Queue.write_attempts, h.attempts]
  · rwa [Queue.Finish.write_status]

omit [CharTable] in
/-- A requeue leaves the job waiting for its next execution. -/
theorem Underway.requeued (h : Underway service db job session r called n acquired locked)
    {availableAfter now : Time} {errorClass errorMessage : String}
    (hjobs : after.jobs = modify locked.jobs acquired.id
      (Queue.Finish.requeue availableAfter errorClass errorMessage now).write)
    (hthreads : after.threads = locked.threads) (hsessions : after.sessions = locked.sessions)
    (hlast : Transport (service.outcomes (called + n))) (hleft : r + 1 < budget job) :
    Pending service db job (r + 1) ⟨after, called + n⟩ := by
  have hcalls : called + n = (r + 1) * service.limit := by
    rw [h.before, h.last.resolve_right (not_not.mpr hlast), Nat.succ_mul]
  refine ⟨?_, hthreads.trans h.threads, hsessions.trans h.sessions, ?_, hcalls,
    hcalls ▸ h.refused.succ hlast, hleft⟩
  · dsimp only
    rw [hjobs]
    exact (distinctKeys_modify (Queue.write_id _)).mpr h.keys
  · dsimp only
    rw [hjobs]
    refine ⟨_, h.get_written _, rfl, ?_, h.sessionId, h.dreamId, h.maxAttempts⟩
    rw [Queue.write_attempts, h.attempts, Nat.cast_add_one]

omit [CharTable] in
/-- A valid answer that leaves the row as it was acquired has the job stuck. -/
theorem Underway.stuck (h : Underway service db job session r called n acquired locked)
    (hjobs : after.jobs = locked.jobs) (hvalid : service.Valid (service.outcomes (called + n)))
    (hunstorable : ¬ service.Storable (service.outcomes (called + n))) :
    Stuck service job ⟨after, called + n⟩ := by
  have hcalled := h.before
  have hpos := h.pos
  have hle := h.le
  have hnext : (r + 1) * service.limit = r * service.limit + service.limit := Nat.succ_mul _ _
  have hmost : service.limit * (r + 1) ≤ service.limit * budget job :=
    Nat.mul_le_mul_left _ h.within
  rw [Nat.mul_comm] at hmost
  refine ⟨hjobs ▸ h.keys, ⟨acquired, ?_, h.executable.running⟩, by dsimp only; omega,
    by dsimp only; omega, h.refused, hvalid, hunstorable⟩
  dsimp only
  rw [hjobs, ← h.id]
  exact h.executable.stored

/-- A valid answer completes the job, or cannot be stored. -/
theorem Underway.answered (h : Underway service db job session r called n acquired locked)
    (hid : get db.threads (draws.threadId false) = none)
    {answer : ProviderRawResponse × String}
    (hreply : service.reply (service.asked called) = .ok answer) :
    Finished service job
        ⟨(execute (service.environment called draws) noDelivery acquired locked).2, called + n⟩ ∨
      Stuck service job
        ⟨(execute (service.environment called draws) noDelivery acquired locked).2, called + n⟩ := by
  have hid' : get locked.threads (draws.threadId false) = none := by rw [h.threads, hid]
  have hanswer : service.reply (service.outcomes (called + n)) = .ok answer := by
    rw [← h.asked, hreply]
  have hvalid : service.Valid (service.outcomes (called + n)) :=
    Service.reply_ok_iff.mp ⟨answer, hanswer⟩
  by_cases hstorable : service.refusal answer.1 answer.2 = none
  · obtain ⟨threadId, now, hjobs⟩ :=
      execute_answered service called draws h.executable hid' hreply hstorable
    refine .inl (h.finished (.markCompleted threadId now) hjobs (.inl ?_))
    refine ⟨not_transport_of_valid hvalid, rfl, fun answer' h' => ?_, .inl ⟨hvalid, rfl⟩⟩
    cases hanswer.symm.trans h'
    exact hstorable
  · have hjobs := execute_unstored service called draws h.executable hid' hreply hstorable
    exact .inr (h.stuck hjobs hvalid fun hs => hstorable (hs answer hanswer))

/-- A transport error to the end queues the job again, unless it is its last execution. -/
theorem Underway.exhausted (h : Underway service db job session r called n acquired locked)
    {message : String} (hreply : service.reply (service.asked called) = .error (.retryable message))
    (hlast : Transport (service.outcomes (called + n))) :
    Pending service db job (r + 1)
        ⟨(execute (service.environment called draws) noDelivery acquired locked).2, called + n⟩ ∨
      Finished service job
        ⟨(execute (service.environment called draws) noDelivery acquired locked).2, called + n⟩ := by
  obtain ⟨summaries, hafter⟩ := execute_refused service called draws h.executable hreply
  have hattempts := h.attempts
  have hmax := h.maxAttempts
  by_cases hleft : acquired.attempts < acquired.maxAttempts
  · have hfin : handleFailure (service.environment called draws) acquired
        (.raised (.retryable message)) = .requeue _ _ _ _ := if_pos hleft
    rw [hfin] at hafter
    refine .inl (h.requeued (by rw [hafter]) (by rw [hafter]) (by rw [hafter]) hlast ?_)
    unfold budget
    omega
  · have hfin : handleFailure (service.environment called draws) acquired
        (.raised (.retryable message)) = .markFailed _ _ _ _ := if_neg hleft
    rw [hfin] at hafter
    have hbudget : r + 1 = budget job := by
      have hwithin := h.within
      unfold budget at hwithin ⊢
      omega
    refine .inr (h.finished _ (by rw [hafter]) (.inr ⟨hlast, rfl, rfl, ?_⟩))
    rw [← hbudget, Nat.mul_comm, h.before, h.last.resolve_right (not_not.mpr hlast), Nat.succ_mul]

/-- Any other error fails the job. -/
theorem Underway.failed (h : Underway service db job session r called n acquired locked) {e : Exc}
    (hreply : service.reply (service.asked called) = .error e)
    (hanswer : ¬ Transport (service.outcomes (called + n)))
    (hother : ∃ message, e = .nonRetryable message ∨ e = .other message) :
    Finished service job
      ⟨(execute (service.environment called draws) noDelivery acquired locked).2, called + n⟩ := by
  obtain ⟨summaries, hafter⟩ := execute_refused service called draws h.executable hreply
  obtain ⟨message, hother⟩ := hother
  have hfin : handleFailure (service.environment called draws) acquired (.raised e) =
      .markFailed "NonRetryableAnalysisError" message false
        (service.environment called draws).finishedAt := by
    rcases hother with rfl | rfl <;> rfl
  rw [hfin] at hafter
  have hnone : ∀ answer, service.reply (service.outcomes (called + n)) ≠ .ok answer := by
    intro answer ha
    rw [← h.asked] at ha
    cases hreply.symm.trans ha
  refine h.finished _ (by rw [hafter]) (.inl ⟨hanswer, rfl, fun answer ha => ?_, .inr ⟨?_, rfl⟩⟩)
  · exact absurd ha (hnone answer)
  · rw [← Service.reply_ok_iff]
    exact fun ⟨answer, ha⟩ => hnone answer ha

end Underway

/-- A waiting job that is acquired is executed, with as many calls as the execution requests. -/
theorem Pending.underway (h : Pending service db job r state) (hq : Enqueued db job session)
    {acquired : AnalysisJob} (hpoll : get (round.poll state.db.jobs).1 job.id = some acquired) :
    ∃ n locked, Underway service db job session r state.called n acquired locked ∧
      turn service job.id state round =
        ⟨(execute (service.environment state.called round.draws) noDelivery acquired locked).2,
          state.called + n⟩ := by
  obtain ⟨row, hrow, hstatus, hattempts, hsessionId, hdreamId, hmax⟩ := h.row
  obtain ⟨-, rfl, hget⟩ := get_acquired h.jobs hrow
    (not_stale_of_not_running (by simp [hstatus]) _) hpoll
  have hid : (row.acquired round.lockedBy round.now).id = job.id := key_of_get hpoll
  have hexec : Executable { state.db with jobs := (round.poll state.db.jobs).2 }
      (row.acquired round.lockedBy round.now) (row.acquired round.lockedBy round.now) session := by
    refine ⟨?_, rfl, hdreamId.trans hq.analysis, ?_, hq.active, ?_⟩
    · rw [hid]
      exact hget
    · dsimp only
      rw [h.sessions]
      exact hsessionId ▸ hq.found
    · dsimp only
      rw [h.threads]
      exact hq.threads
  obtain ⟨n, hn, hle, hbefore, hend, hasked, hrequested⟩ := asked_eq service state.called
  refine ⟨n, { state.db with jobs := (round.poll state.db.jobs).2 }, ?_, ?_⟩
  · exact ⟨hexec, distinctKeys_acquireAvailableJobs h.jobs _, h.threads, h.sessions, hid,
      congrArg (· + 1) hattempts, hmax, hsessionId, hdreamId, h.within, h.called, hn, hle,
      h.refused_before hbefore, hasked, hend⟩
  · simp only [turn, hpoll]
    rw [providerCalls_undisturbed service state.called round.draws hexec.found, hrequested]

/-- An execution of a waiting job queues it again or ends it, or cannot store its answer. -/
theorem Pending.acquired (h : Pending service db job r state) (hq : Enqueued db job session)
    (hid : get db.threads (round.draws.threadId false) = none) {acquired : AnalysisJob}
    (hpoll : get (round.poll state.db.jobs).1 job.id = some acquired) :
    Pending service db job (r + 1) (turn service job.id state round) ∨
      Finished service job (turn service job.id state round) ∨
      Stuck service job (turn service job.id state round) := by
  obtain ⟨n, locked, hunder, hturn⟩ := h.underway hq hpoll
  rw [hturn]
  cases hreply : service.reply (service.asked state.called) with
  | ok answer => exact .inr (hunder.answered hid hreply)
  | error e =>
    rcases Service.reply_error hreply with ⟨message, htransport, rfl⟩ | ⟨hanswer, hother⟩
    · exact (hunder.exhausted hreply ⟨message, hunder.asked.symm.trans htransport⟩).imp_right .inl
    · exact .inr (.inl (hunder.failed hreply (hunder.asked ▸ hanswer) hother))

theorem Pending.turn (h : Pending service db job r state) (hq : Enqueued db job session)
    (hid : get db.threads (round.draws.threadId false) = none) :
    (∃ r', r ≤ r' ∧ Pending service db job r' (turn service job.id state round)) ∨
      Finished service job (turn service job.id state round) ∨
      Stuck service job (turn service job.id state round) := by
  cases hpoll : get (round.poll state.db.jobs).1 job.id with
  | none => exact .inl ⟨r, le_rfl, h.not_acquired hpoll⟩
  | some acquired =>
    exact (h.acquired hq hid hpoll).imp_left fun hp => ⟨r + 1, Nat.le_succ r, hp⟩

/-- A row that does not wait and whose lock is not stale is left as it is. -/
theorem turn_of_settled (service : Service) (round : Round) (hjobs : DistinctKeys state.db.jobs) {row : AnalysisJob}
    (hrow : get state.db.jobs job.id = some row) (hstatus : row.status ≠ .queued)
    (hfresh : 0 < round.limit → ¬ row.Stale (round.now - seconds (staleSeconds
      round.staleTimeoutSeconds round.configured))) :
    DistinctKeys (turn service job.id state round).db.jobs ∧
      get (turn service job.id state round).db.jobs job.id = some row ∧
      (turn service job.id state round).called = state.called := by
  cases hpoll : get (round.poll state.db.jobs).1 job.id with
  | none =>
    rw [turn_not_acquired hpoll]
    exact ⟨distinctKeys_acquireAvailableJobs hjobs _, get_not_acquired hjobs hrow hfresh hpoll, rfl⟩
  | some acquired => exact absurd (get_acquired hjobs hrow hfresh hpoll).1.1 hstatus

/-- A job that has ended is not acquired again. -/
theorem Finished.turn (h : Finished service job state) :
    Finished service job (turn service job.id state round) := by
  obtain ⟨row, r, hrow, hstatus, hends⟩ := h.row
  have hsettled : row.status ≠ .queued ∧ row.status ≠ .running := by
    rcases hstatus with hs | hs <;> simp [hs]
  obtain ⟨hjobs, hrow', hcalled⟩ := turn_of_settled service round h.jobs hrow
    hsettled.1 (not_stale_of_not_running hsettled.2 _)
  exact ⟨hjobs, row, r, hrow', hstatus, hcalled.symm ▸ hends⟩

/-- A job that is stuck stays so until its lock is stale. -/
theorem Stuck.turn (h : Stuck service job state) (hfresh : ¬ Recovers job.id state round) :
    Stuck service job (turn service job.id state round) := by
  obtain ⟨row, hrow, hstatus⟩ := h.row
  obtain ⟨hjobs, hrow', hcalled⟩ := turn_of_settled service round h.jobs hrow
    (by simp [hstatus]) fun hlimit hs => hfresh ⟨hlimit, row, hrow, hs⟩
  refine ⟨hjobs, ⟨row, hrow', hstatus⟩, ?_, ?_, ?_, ?_, ?_⟩ <;> rw [hcalled]
  · exact h.called
  · exact h.within
  · exact h.refused
  · exact h.valid
  · exact h.unstorable

end Round

/-! ### All rounds -/

section Run

variable [CharTable] {service : Service} {db : Database} {job : AnalysisJob}
  {session : DreamSession} {rounds : ℕ → Round}

omit [CharTable] in
theorem Enqueued.pending (h : Enqueued db job session) : Pending service db job 0 ⟨db, 0⟩ where
  jobs := h.jobs
  threads := rfl
  sessions := rfl
  row := ⟨job, h.stored, h.status, h.attempts, rfl, rfl, rfl⟩
  called := (Nat.zero_mul _).symm
  refused i hi hle := by omega
  within := by
    unfold budget
    omega

variable (hq : Enqueued db job session)
  (hid : ∀ n, get db.threads ((rounds n).draws.threadId false) = none)
include hq hid

theorem pending_or_finished_or_stuck (n : ℕ)
    (hfresh : ∀ m < n, ¬ Recovers job.id (after service job.id db rounds m) (rounds m)) :
    (∃ r, Pending service db job r (after service job.id db rounds n)) ∨
      Finished service job (after service job.id db rounds n) ∨
      Stuck service job (after service job.id db rounds n) := by
  induction n with
  | zero => exact .inl ⟨0, hq.pending⟩
  | succ n ih =>
    rcases ih fun m hm => hfresh m (Nat.lt_succ_of_lt hm) with ⟨r, h⟩ | h | h
    · exact (h.turn hq (hid n)).imp_left fun ⟨r', _, h'⟩ => ⟨r', h'⟩
    · exact .inr (.inl h.turn)
    · exact .inr (.inr (h.turn (hfresh n n.lt_succ_self)))

omit hq hid in
theorem Finished.after {n : ℕ} (h : Finished service job (after service job.id db rounds n))
    (m : ℕ) : Finished service job (after service job.id db rounds (n + m)) := by
  induction m with
  | zero => exact h
  | succ m ih => exact ih.turn

omit [CharTable] hq hid in
theorem Pending.waits {r : ℕ} {state : State} (h : Pending service db job r state) :
    Waits job.id state := by
  obtain ⟨row, hrow, hstatus, -⟩ := h.row
  exact ⟨row, hrow, hstatus⟩

/-- A job that has ended is finished. -/
theorem finished_of_ended {n : ℕ}
    (hfresh : ∀ m < n, ¬ Recovers job.id (after service job.id db rounds m) (rounds m))
    (h : Ended job.id (after service job.id db rounds n)) :
    Finished service job (after service job.id db rounds n) := by
  obtain ⟨row, hrow, hstatus⟩ := h
  rcases pending_or_finished_or_stuck hq hid n hfresh with ⟨r, hpending⟩ | hfinished | hstuck
  · obtain ⟨row', hrow', hqueued⟩ := hpending.waits
    cases hrow.symm.trans hrow'
    rcases hstatus with hs | hs <;> cases hs.symm.trans hqueued
  · exact hfinished
  · obtain ⟨row', hrow', hrunning⟩ := hstuck.row
    cases hrow.symm.trans hrow'
    rcases hstatus with hs | hs <;> cases hs.symm.trans hrunning

end Run

/-! ### Examples -/

namespace Example

local instance : CharTable := Settlement.table

/-- A reply with the intensity `NaN`, which the decoder and the contract accept. -/
def nanReply : String :=
  "\x7b\"summary\": \"\", \"symbols\": [], \"emotional_state\": \x7b\"primary\": \"\", " ++
  "\"secondary\": \"\", \"intensity\": NaN\x7d, \"jungian_interpretation\": " ++
  "\x7b\"archetypes\": [], \"shadow_elements\": [], \"anima_animus_signals\": [], " ++
  "\"individuation_hint\": \"\"\x7d, \"narrative_interpretation\": \"\", " ++
  "\"key_insight\": \"\", \"uncertainty_notes\": []\x7d"

/-- The database takes the one reply and refuses the other. -/
def refusal (_ : ProviderRawResponse) (validated : String) : Option String :=
  if validated = nanReply then some "invalid input syntax for type json" else none

/-- Three transport errors, and then a valid text. -/
def service : Service where
  llmMaxAttempts := 2
  outcomes := fun n =>
    if n ≤ 3 then .error (.transport "LLM timeout") else .ok ⟨Settlement.reply, "mock", "mock-v1"⟩
  parseResponse := .ok
  validateAnalysisOutput := .ok
  refusal := refusal

def job : AnalysisJob := newJob 1 7 "mock" "mock-v1" 3 .auto none 0

def database : Database := { Settlement.database with jobs := [job] }

def rounds (n : ℕ) : Round :=
  ⟨1, "worker-a", seconds (100 * (n + 1)), none, 180, Settlement.environment [] ""⟩

theorem enqueued : Enqueued database job ⟨7, 3, .active, 0, 0⟩ :=
  ⟨List.nodup_singleton _, distinctKeys_nil, rfl, rfl, rfl, rfl, rfl, rfl⟩

theorem queued_first (n : ℕ) (hn : n < 2) {row : AnalysisJob}
    (hrow : get (after service job.id database rounds n).db.jobs job.id = some row) :
    row.status = .queued := by
  obtain rfl | rfl : n = 0 ∨ n = 1 := by omega
  · cases hrow
    rfl
  · cases hrow
    rfl

theorem completed_second : (get (after service job.id database rounds 2).db.jobs job.id).map
    AnalysisJob.status = some .completed := by
  decide +kernel

theorem finished (n : ℕ) (hn : 2 ≤ n) : Finished service job (after service job.id database rounds n) := by
  obtain ⟨row, hrow, hstatus⟩ := Option.map_eq_some_iff.mp completed_second
  have hsecond : Finished service job (after service job.id database rounds 2) := by
    refine finished_of_ended enqueued (fun _ => rfl) (fun m hm => ?_) ⟨row, hrow, .inl hstatus⟩
    rintro ⟨-, row', hrow', hrunning, -⟩
    cases (queued_first m hm hrow').symm.trans hrunning
  obtain ⟨m, rfl⟩ := Nat.exists_eq_add_of_le hn
  exact hsecond.after m

end Example

end LiberNovus.Runtime.Retries

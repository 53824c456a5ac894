import LiberNovus.Foundation.Runs
import LiberNovus.Runtime.Job

/-! Runs of the job queue, each service call taken as atomic. The state is the
table together with the copies of the rows that acquisitions have handed to
executors; a copy keeps the `attempts` value of its acquisition, which is the
number of that acquisition. A worker that crashes is a worker that makes no
further call.

Proved: the attempt count of a job is the number of times it was handed out; it
stays within the budget in every run in which no exhausted job is put back into
the queue; and a call that ends an execution takes effect exactly when the row is
running, whichever acquisition holds it. -/

namespace LiberNovus.Runtime

open Rows Runs

/-- The queue as its callers see it. -/
structure Queue where
  jobs : List AnalysisJob
  handed : List AnalysisJob
  deriving DecidableEq

namespace Queue

def empty : Queue := ⟨[], []⟩

/-- The calls that end an execution, with their arguments. -/
inductive Finish where
  | markCompleted (threadId : Option Uuid) (now : Time)
  | markFailed (errorClass errorMessage : String) (retryable : Bool) (now : Time)
  | requeue (availableAfter : Time) (errorClass errorMessage : String) (now : Time)
  deriving DecidableEq, Repr

def Finish.verb : Finish → String
  | .markCompleted .. => "complete"
  | .markFailed .. => "fail"
  | .requeue .. => "requeue"

/-- The row a successful call writes. -/
def Finish.write : Finish → AnalysisJob → AnalysisJob
  | .markCompleted threadId now => AnalysisJob.completed threadId now
  | .markFailed c m b now => AnalysisJob.failed c m b now
  | .requeue a c m now => AnalysisJob.requeued a c m now

/-- The status a successful call writes. -/
def Finish.status : Finish → AnalysisJobStatus
  | .markCompleted .. => .completed
  | .markFailed .. => .failed
  | .requeue .. => .queued

@[simp] theorem Finish.write_status (fin : Finish) (job : AnalysisJob) :
    (fin.write job).status = fin.status := by
  cases fin <;> rfl

theorem Finish.status_ne_running (fin : Finish) : fin.status ≠ .running := by
  cases fin <;> simp [status]

def Finish.call (db : List AnalysisJob) (jobId : Uuid) :
    Finish → Except InvalidJobTransitionError (AnalysisJob × List AnalysisJob)
  | .markCompleted threadId now => Runtime.markCompleted db jobId threadId now
  | .markFailed c m b now => Runtime.markFailed db jobId c m b now
  | .requeue a c m now => Runtime.requeue db jobId a c m now

theorem Finish.call_eq (fin : Finish) (db : List AnalysisJob) (jobId : Uuid) :
    fin.call db jobId = transition fin.verb fin.write db jobId := by
  cases fin <;> rfl

/-- `_handle_retryable_failure`: the budget is compared on the executor's copy. -/
def handleRetryableFailure (copy : AnalysisJob) (errorClass errorMessage : String) (now : Time) :
    Finish :=
  if copy.attempts < copy.maxAttempts then
    .requeue (now + seconds 5) errorClass errorMessage now
  else .markFailed errorClass errorMessage true now

/-- One call of the queue service, by anybody. `finish` is a direct call of one of
the three transitions, `retry` the retry handling of an executor on its copy. -/
inductive Call where
  | createJob (id sessionId : Uuid) (provider model : String) (maxAttempts : ℤ)
      (mode : AnalysisMode) (dreamId : Option ℕ) (now : Time)
  | acquire (limit : ℤ) (lockedBy : String) (now : Time) (staleTimeoutSeconds : Option ℤ)
  | finish (jobId : Uuid) (fin : Finish)
  | retry (copy : AnalysisJob) (errorClass errorMessage : String) (now : Time)

/-- A call that raises changes nothing. -/
def finish (s : Queue) (jobId : Uuid) (fin : Finish) : Queue :=
  match fin.call s.jobs jobId with
  | .ok (_, jobs) => { s with jobs := jobs }
  | .error _ => s

/-- The state after one call. A new row takes an unused key, and retry handling
runs on a copy that was handed out. -/
def step (configured : ℤ) (s : Queue) : Call → Option Queue
  | .createJob id sessionId provider model maxAttempts mode dreamId now =>
    if get s.jobs id = none then
      some { s with
        jobs := s.jobs ++ [newJob id sessionId provider model maxAttempts mode dreamId now] }
    else none
  | .acquire limit lockedBy now stale =>
    let r := acquireAvailableJobs s.jobs limit lockedBy now stale configured fun _ => false
    some ⟨r.2, s.handed ++ r.1⟩
  | .finish jobId fin => some (s.finish jobId fin)
  | .retry copy errorClass errorMessage now =>
    if copy ∈ s.handed then
      some (s.finish copy.id (handleRetryableFailure copy errorClass errorMessage now))
    else none

/-- How often the job was handed to an executor. -/
def timesHanded (s : Queue) (id : Uuid) : ℕ := (s.handed.map AnalysisJob.id).count id

/-- What holds of every queue: the attempt count of a row is the number of its
acquisitions, and a copy is either of an earlier acquisition or, while the job
runs, the row itself. -/
structure Wf (s : Queue) : Prop where
  unique : DistinctKeys s.jobs
  counted : ∀ job ∈ s.jobs, job.attempts = s.timesHanded job.id
  known : ∀ copy ∈ s.handed, ∃ job, get s.jobs copy.id = some job ∧ copy.attempts ≤ job.attempts ∧
    (job.status = .running → job.attempts = copy.attempts → job = copy)

theorem wf_empty : empty.Wf := ⟨distinctKeys_nil, by simp [empty], by simp [empty]⟩

/-- Rewriting rows without touching key or attempts keeps the queue well formed,
when no row enters `running`. -/
theorem Wf.map {s : Queue} (h : s.Wf) {g : AnalysisJob → AnalysisJob} (hid : ∀ r, (g r).id = r.id)
    (ha : ∀ r, (g r).attempts = r.attempts) (hr : ∀ r, (g r).status = .running → g r = r) :
    Wf { s with jobs := s.jobs.map g } where
  unique := (distinctKeys_map hid).mpr h.unique
  counted := by
    intro job hj
    obtain ⟨r, hr', rfl⟩ := List.mem_map.mp hj
    rw [ha, hid]
    exact h.counted r hr'
  known := by
    intro copy hc
    obtain ⟨job, hg, hle, hrun⟩ := h.known copy hc
    refine ⟨g job, by rw [get_map hid, hg, Option.map_some], by rwa [ha], fun hs => ?_⟩
    have he := hr job hs
    rw [he] at hs ⊢
    exact hrun hs

theorem wf_recover {s : Queue} (h : s.Wf) (t : Time) (n : ℤ) (locked : Uuid → Bool) :
    Wf { s with jobs := recoverStaleRunningJobs s.jobs t n locked } := by
  refine h.map (fun r => ?_) (fun r => ?_) fun r => ?_ <;> split <;> simp [AnalysisJob.recovered]

theorem write_id (fin : Finish) (job : AnalysisJob) : (fin.write job).id = job.id := by
  cases fin <;> rfl

theorem write_attempts (fin : Finish) (job : AnalysisJob) :
    (fin.write job).attempts = job.attempts := by
  cases fin <;> rfl

theorem write_maxAttempts (fin : Finish) (job : AnalysisJob) :
    (fin.write job).maxAttempts = job.maxAttempts := by
  cases fin <;> rfl

theorem write_status (fin : Finish) (job : AnalysisJob) : (fin.write job).status ≠ .running := by
  cases fin <;> simp [Finish.write, AnalysisJob.completed, AnalysisJob.failed, AnalysisJob.requeued]

/-- A finishing call either changes nothing or rewrites one running row. -/
theorem finish_cases (s : Queue) (jobId : Uuid) (fin : Finish) :
    s.finish jobId fin = s ∨ ∃ job, get s.jobs jobId = some job ∧ job.status = .running ∧
      s.finish jobId fin = { s with jobs := modify s.jobs jobId fin.write } := by
  unfold finish
  cases hc : fin.call s.jobs jobId with
  | error => exact .inl rfl
  | ok r =>
    rw [Finish.call_eq, transition_ok] at hc
    obtain ⟨job, hg, hs, rfl⟩ := hc
    exact .inr ⟨job, hg, hs, rfl⟩

theorem finish_handed (s : Queue) (jobId : Uuid) (fin : Finish) :
    (s.finish jobId fin).handed = s.handed := by
  rcases finish_cases s jobId fin with he | ⟨-, -, -, he⟩ <;> rw [he]

theorem wf_finish {s : Queue} (h : s.Wf) (jobId : Uuid) (fin : Finish) : (s.finish jobId fin).Wf := by
  rcases finish_cases s jobId fin with he | ⟨job, -, -, he⟩
  · rwa [he]
  · rw [he]
    refine h.map (fun r => ?_) (fun r => ?_) fun r => ?_ <;> split
    · exact write_id fin r
    · rfl
    · exact write_attempts fin r
    · rfl
    · exact fun hs => absurd hs (write_status fin r)
    · exact fun _ => rfl

/-- The row function of `markAcquired` keeps the key. -/
theorem markAcquired_id (jobs : List AnalysisJob) (by_ : String) (t : Time) (r : AnalysisJob) :
    key (if r ∈ jobs then r.acquired by_ t else r) = key r := by
  split <;> rfl

theorem wf_markAcquired {s : Queue} (h : s.Wf) (limit : ℤ) (by_ : String) (t : Time)
    (locked : Uuid → Bool) :
    Wf ⟨(markAcquired s.jobs limit by_ t locked).2,
      s.handed ++ (markAcquired s.jobs limit by_ t locked).1⟩ := by
  set jobs := selectAvailable s.jobs limit t locked with hjobs
  have hmem : ∀ r ∈ jobs, r ∈ s.jobs := fun r hr => (mem_selectAvailable hr).1
  have huniq : DistinctKeys jobs := selectAvailable_distinctKeys h.unique limit t locked
  have hids : (jobs.map (AnalysisJob.acquired by_ t)).map AnalysisJob.id = jobs.map key := by
    simp [Function.comp_def]
  -- a row that was not selected shares its key with no selected row
  have hout : ∀ r ∈ s.jobs, r ∉ jobs → r.id ∉ jobs.map key := by
    intro r hr hn hk
    obtain ⟨r', hr', he⟩ := List.mem_map.mp hk
    exact hn (List.inj_on_of_nodup_map h.unique (hmem r' hr') hr he ▸ hr')
  refine ⟨(distinctKeys_map (markAcquired_id jobs by_ t)).mpr h.unique, ?_, ?_⟩
  · intro job hj
    obtain ⟨r, hr, rfl⟩ := List.mem_map.mp hj
    have hc := h.counted r hr
    simp only [timesHanded, markAcquired, ← hjobs, List.map_append, List.count_append, hids] at hc ⊢
    by_cases hs : r ∈ jobs
    · have h1 : (jobs.map key).count r.id = 1 :=
        List.count_eq_one_of_mem huniq (List.mem_map_of_mem hs)
      rw [if_pos hs, acquired_id, h1]
      simp [AnalysisJob.acquired, hc]
    · rw [if_neg hs, List.count_eq_zero_of_not_mem (hout r hr hs)]
      simpa using hc
  · intro copy hc
    simp only [markAcquired, ← hjobs, List.mem_append, List.mem_map] at hc ⊢
    rcases hc with hc | ⟨r, hr, rfl⟩
    · obtain ⟨job, hg, hle, hrun⟩ := h.known copy hc
      refine ⟨_, by rw [get_map (markAcquired_id jobs by_ t), hg, Option.map_some], ?_, ?_⟩ <;> split
      · simp only [AnalysisJob.acquired]; omega
      · exact hle
      · intro _ he
        simp only [AnalysisJob.acquired] at he
        omega
      · exact hrun
    · refine ⟨r.acquired by_ t, ?_, le_rfl, fun _ _ => rfl⟩
      rw [get_map (markAcquired_id jobs by_ t), acquired_id, ← key_job,
        get_of_mem h.unique (hmem r hr), Option.map_some, if_pos hr]

theorem wf_step {configured : ℤ} {s t : Queue} {c : Call} (h : s.Wf)
    (ht : step configured s c = some t) : t.Wf := by
  cases c with
  | createJob id sessionId provider model maxAttempts mode dreamId now =>
    simp only [step, Option.ite_none_right_eq_some, Option.some.injEq] at ht
    obtain ⟨hn, rfl⟩ := ht
    refine ⟨distinctKeys_append_singleton h.unique hn, ?_, ?_⟩
    · intro job hj
      rcases List.mem_append.mp hj with hj | hj
      · exact h.counted job hj
      · obtain rfl := List.mem_singleton.mp hj
        -- a copy of the new job would name a row that is already there
        have h0 : id ∉ s.handed.map AnalysisJob.id := by
          intro hm
          obtain ⟨copy, hc, rfl⟩ := List.mem_map.mp hm
          obtain ⟨row, hg, -⟩ := h.known copy hc
          rw [hn] at hg
          cases hg
        simp [newJob, timesHanded, List.count_eq_zero_of_not_mem h0]
    · intro copy hc
      obtain ⟨job, hg, hrest⟩ := h.known copy hc
      exact ⟨job, by rw [get_append, hg, Option.some_or], hrest⟩
  | acquire limit by_ now stale =>
    simp only [step, Option.some.injEq] at ht
    subst ht
    unfold acquireAvailableJobs
    split
    · simpa using h
    · exact wf_markAcquired
        (wf_recover h now (staleSeconds stale configured) fun _ => false) limit by_ now _
  | finish jobId fin =>
    simp only [step, Option.some.injEq] at ht
    exact ht ▸ wf_finish h jobId fin
  | retry copy errorClass errorMessage now =>
    simp only [step, Option.ite_none_right_eq_some, Option.some.injEq] at ht
    exact ht.2 ▸ wf_finish h _ _

/-! ### The attempt budget -/

/-- The job has been started at most `max_attempts` times. -/
def WithinBudget (s : Queue) : Prop :=
  ∀ job ∈ s.jobs, job.attempts ≤ job.maxAttempts ∧ (s.timesHanded job.id : ℤ) ≤ job.maxAttempts

/-- The running row that `fin` would put back into the queue has attempts left. -/
def Spares (s : Queue) (jobId : Uuid) (fin : Finish) : Prop :=
  ∀ job, get s.jobs jobId = some job → job.status = .running →
    (fin.write job).status = .queued → job.attempts < job.maxAttempts

/-- No call returns a running job to the queue that has used up its attempts:
neither the recovery of stale locks nor a requeue. -/
def NoExhaustedRequeue (configured : ℤ) (s : Queue) : Call → Prop
  | .createJob .. => True
  | .acquire limit _ now stale => 0 < limit → ∀ job ∈ s.jobs,
      job.Stale (now - seconds (staleSeconds stale configured)) → job.attempts < job.maxAttempts
  | .finish jobId fin => s.Spares jobId fin
  | .retry copy errorClass errorMessage now =>
      s.Spares copy.id (handleRetryableFailure copy errorClass errorMessage now)

/-- Every job is within its budget, and a queued one has an attempt left. -/
def Budget (jobs : List AnalysisJob) : Prop :=
  ∀ job ∈ jobs, job.attempts ≤ job.maxAttempts ∧
    (job.status = .queued → job.attempts < job.maxAttempts)

theorem budget_recover {jobs : List AnalysisJob} (h : Budget jobs) {t : Time} {n : ℤ}
    {locked : Uuid → Bool}
    (hs : ∀ job ∈ jobs, job.Stale (t - seconds n) → job.attempts < job.maxAttempts) :
    Budget (recoverStaleRunningJobs jobs t n locked) := by
  intro job hj
  obtain ⟨r, hr, rfl⟩ := List.mem_map.mp hj
  split
  · next hst => exact ⟨(h r hr).1, fun _ => hs r hr hst.1⟩
  · exact h r hr

theorem budget_markAcquired {jobs : List AnalysisJob} (h : Budget jobs) (limit : ℤ) (by_ : String)
    (t : Time) (locked : Uuid → Bool) : Budget (markAcquired jobs limit by_ t locked).2 := by
  intro job hj
  obtain ⟨r, hr, rfl⟩ := List.mem_map.mp hj
  split
  · next hsel =>
    have hq := (h r hr).2 (mem_selectAvailable hsel).2.1.1
    refine ⟨?_, fun hc => ?_⟩
    · simp only [AnalysisJob.acquired]; omega
    · simp [AnalysisJob.acquired] at hc
  · exact h r hr

theorem budget_finish {s : Queue} (hu : DistinctKeys s.jobs) (h : Budget s.jobs) {jobId : Uuid}
    {fin : Finish} (hs : s.Spares jobId fin) : Budget (s.finish jobId fin).jobs := by
  rcases finish_cases s jobId fin with he | ⟨job, hg, hrun, he⟩
  · rwa [he]
  · rw [he]
    intro r hr
    rcases mem_modify hr with ⟨hr, -⟩ | ⟨r₀, hr₀, hk, rfl⟩
    · exact h r hr
    · have hj : r₀ = job := by
        have := get_of_mem hu hr₀
        rw [hk, hg] at this
        exact (Option.some.inj this).symm
      rw [write_attempts, write_maxAttempts]
      exact ⟨(h r₀ hr₀).1, fun hq => hj ▸ hs job hg hrun (hj ▸ hq)⟩

theorem budget_step {configured : ℤ} {s t : Queue} {c : Call} (hw : s.Wf) (h : Budget s.jobs)
    (hc : NoExhaustedRequeue configured s c) (ht : step configured s c = some t) :
    Budget t.jobs := by
  cases c with
  | createJob id sessionId provider model maxAttempts mode dreamId now =>
    simp only [step, Option.ite_none_right_eq_some, Option.some.injEq] at ht
    obtain ⟨-, rfl⟩ := ht
    intro job hj
    rcases List.mem_append.mp hj with hj | hj
    · exact h job hj
    · obtain rfl := List.mem_singleton.mp hj
      simp only [newJob, forall_const]
      omega
  | acquire limit by_ now stale =>
    simp only [step, Option.some.injEq] at ht
    subst ht
    unfold acquireAvailableJobs
    split
    · exact h
    · next hl => exact budget_markAcquired (budget_recover h (hc (by omega))) limit by_ now _
  | finish jobId fin =>
    simp only [step, Option.some.injEq] at ht
    exact ht ▸ budget_finish hw.unique h hc
  | retry copy errorClass errorMessage now =>
    simp only [step, Option.ite_none_right_eq_some, Option.some.injEq] at ht
    exact ht.2 ▸ budget_finish hw.unique h hc

theorem Wf.withinBudget {s : Queue} (hw : s.Wf) (h : Budget s.jobs) : s.WithinBudget := fun job hj =>
  ⟨(h job hj).1, hw.counted job hj ▸ (h job hj).1⟩

/-- In every run that puts no exhausted job back, no job is ever handed out more
than `max_attempts` times. -/
theorem attempts_within_budget (configured : ℤ) (calls : List Call)
    (hg : Guarded (step configured) (NoExhaustedRequeue configured) empty calls) :
    Always (step configured) WithinBudget empty calls := by
  have hinv : Always (step configured) (fun s => s.Wf ∧ Budget s.jobs) empty calls :=
    always_of_guarded (G := NoExhaustedRequeue configured)
      (fun _ _ _ hi hok ht => ⟨wf_step hi.1 ht, budget_step hi.1 hi.2 hok ht⟩)
      ⟨wf_empty, by simp [Budget, empty]⟩ hg
  exact hinv.mono fun _ hi => hi.1.withinBudget hi.2

instance (s : Queue) : Decidable s.WithinBudget := inferInstanceAs (Decidable (∀ _ ∈ _, _))

instance (s : Queue) (jobId : Uuid) (fin : Finish) : Decidable (s.Spares jobId fin) :=
  match h : get s.jobs jobId with
  | none => isTrue (by simp [Spares, h])
  | some job => decidable_of_iff (job.status = .running → (fin.write job).status = .queued →
      job.attempts < job.maxAttempts) (by simp [Spares, h])

instance (configured : ℤ) (s : Queue) : ∀ call : Call,
    Decidable (NoExhaustedRequeue configured s call)
  | .createJob .. => isTrue trivial
  | .acquire .. => inferInstanceAs (Decidable (_ → ∀ _ ∈ _, _))
  | .finish jobId fin => inferInstanceAs (Decidable (s.Spares jobId fin))
  | .retry copy .. => inferInstanceAs (Decidable (s.Spares copy.id _))

/-- A job with two attempts whose first worker dies: the lock is recovered once. -/
def recoveredOnce : List Call :=
  [.createJob 1 7 "mock" "mock-v1" 2 .auto none 0, .acquire 1 "worker-a" 0 none,
    .acquire 1 "worker-b" (seconds 200) none, .finish 1 (.markCompleted none (seconds 201))]

theorem attempts_within_budget_recoveredOnce :
    Always (step 180) WithinBudget empty recoveredOnce :=
  attempts_within_budget 180 recoveredOnce (by decide)

/-- The same with a single attempt: the recovery hands the job out a second time. -/
def recoveredExhausted : List Call :=
  [.createJob 1 7 "mock" "mock-v1" 1 .auto none 0, .acquire 1 "worker-a" 0 none,
    .acquire 1 "worker-b" (seconds 200) none]

theorem attempts_exceed_budget :
    ¬ ∀ configured calls, Always (step configured) WithinBudget empty calls :=
  fun h => absurd (h 180 recoveredExhausted) (by decide)

/-- The retry handling of the acquisition that holds the row keeps the budget: its
copy is the row. -/
theorem spares_retry_of_current {s : Queue} (hw : s.Wf) {copy : AnalysisJob}
    (hc : copy ∈ s.handed) (hcur : ∀ job, get s.jobs copy.id = some job → job.attempts = copy.attempts)
    (errorClass errorMessage : String) (now : Time) :
    s.Spares copy.id (handleRetryableFailure copy errorClass errorMessage now) := by
  intro job hg hrun hq
  obtain ⟨row, hg', -, hrow⟩ := hw.known copy hc
  obtain rfl : row = job := Option.some.inj (hg'.symm.trans hg)
  obtain rfl := hrow hrun (hcur row hg)
  unfold handleRetryableFailure at hq
  split at hq
  · assumption
  · simp [Finish.write, AnalysisJob.failed] at hq

/-! ### Whose execution a finishing call ends -/

/-- Acquisition number `copy.attempts` of the job is the one that holds it. -/
def Current (s : Queue) (copy : AnalysisJob) : Prop :=
  ∃ job ∈ get s.jobs copy.id, job.status = .running ∧ job.attempts = copy.attempts ∧
    job.lockedBy = copy.lockedBy

instance (s : Queue) (copy : AnalysisJob) : Decidable (s.Current copy) :=
  inferInstanceAs (Decidable (∃ _ ∈ _, _))

/-- The calls of every execution take effect only while its acquisition holds the
job, and raise without a change when it does not. -/
def Fenced (s : Queue) : Prop :=
  ∀ copy ∈ s.handed, ¬ s.Current copy → ∀ fin : Finish,
    s.finish copy.id fin = s ∧ ∃ e, fin.call s.jobs copy.id = .error e

/-- What the calls of an execution do: on a running row they take effect, and the
row is then held by the execution's own acquisition or by a later one; on any other
row they raise and change nothing. -/
def GuardedByStatus (s : Queue) : Prop :=
  ∀ copy ∈ s.handed, ∃ job, get s.jobs copy.id = some job ∧
    (s.Current copy ∨ copy.attempts < job.attempts ∨ job.status ≠ .running) ∧ ∀ fin : Finish,
      (job.status = .running → fin.call s.jobs copy.id =
          .ok (fin.write job, modify s.jobs copy.id fin.write)) ∧
      (job.status ≠ .running → s.finish copy.id fin = s ∧
        fin.call s.jobs copy.id = .error (.cannot fin.verb job.status))

theorem Wf.guardedByStatus {s : Queue} (hw : s.Wf) : s.GuardedByStatus := by
  intro copy hc
  obtain ⟨job, hg, hle, hrun⟩ := hw.known copy hc
  refine ⟨job, hg, ?_, fun fin => ⟨fun hs => ?_, fun hs => ?_⟩⟩
  · by_cases hs : job.status = .running
    · rcases hle.lt_or_eq with hlt | he
      · exact .inr (.inl hlt)
      · obtain rfl := hrun hs he.symm
        exact .inl ⟨job, hg, hs, rfl, rfl⟩
    · exact .inr (.inr hs)
  · rw [Finish.call_eq, transition_ok]
    exact ⟨job, hg, hs, rfl⟩
  · have he : fin.call s.jobs copy.id = .error (.cannot fin.verb job.status) := by
      rw [Finish.call_eq, transition_error]
      exact .inr ⟨job, hg, hs, rfl⟩
    exact ⟨by rw [finish, he], he⟩

/-- In every run the status alone decides whether a finishing call takes effect. -/
theorem finish_guarded_by_status (configured : ℤ) (calls : List Call) :
    Always (step configured) GuardedByStatus empty calls :=
  (always_of_step (fun _ _ _ hw ht => wf_step hw ht) wf_empty calls).mono
    fun _ hw => hw.guardedByStatus

/-- The row as `worker-a` acquired it, and as `worker-b` holds it after the lock of
`worker-a` went stale. -/
def copyA : AnalysisJob :=
  (newJob 1 7 "mock" "mock-v1" 2 .auto none 0).acquired "worker-a" 0

def rowB : AnalysisJob :=
  (copyA.recovered (seconds 200) 180).acquired "worker-b" (seconds 200)

def reacquired : List Call :=
  [.createJob 1 7 "mock" "mock-v1" 2 .auto none 0, .acquire 1 "worker-a" 0 none,
    .acquire 1 "worker-b" (seconds 200) none]

theorem run_reacquired : run (step 180) empty reacquired = some ⟨[rowB], [copyA, rowB]⟩ := by
  decide

/-- The execution of `worker-a` completes the job that `worker-b` holds. -/
theorem not_fenced : ¬ ∀ configured calls, Always (step configured) Fenced empty calls := by
  intro h
  have hf := (h 180 reacquired).of_run run_reacquired copyA (by simp) (by decide)
    (.markCompleted none (seconds 201))
  exact absurd hf.1 (by decide)

end Queue

end LiberNovus.Runtime

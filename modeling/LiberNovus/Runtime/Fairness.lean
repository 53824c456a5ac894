import LiberNovus.Runtime.Lifecycle

/-! Waiting in the queue, with a single poller. A job that is created, requeued or recovered
becomes available at the time of the call or later, so behind every job that was available at
an earlier poll.

Proved: a job that has `k` available jobs before it at a poll is acquired no later than the
poll number `k / L` after that one, when every poll takes up to `L` jobs. -/

namespace LiberNovus.Runtime

open Rows Runs LiberNovus.Ordering
open Queue (Call Finish)

/-- A queued job that is ahead of `job` in the order of acquisition. -/
def AnalysisJob.Before (job other : AnalysisJob) : Prop :=
  other.status = .queued ∧ other.Precedes job ∧ other ≠ job

instance (job : AnalysisJob) : DecidablePred job.Before :=
  fun _ => inferInstanceAs (Decidable (_ ∧ _))

/-- The number of jobs that are ahead of `job`. -/
def ahead (jobs : List AnalysisJob) (job : AnalysisJob) : ℕ := jobs.countP fun other => job.Before other

/-- The number of available jobs that are ahead of `job`. -/
def eligibleAhead (jobs : List AnalysisJob) (now : Time) (job : AnalysisJob) : ℕ :=
  jobs.countP fun other => other.Available now ∧ other.Precedes job ∧ other ≠ job

/-! ### One selection -/

section Selection

variable {jobs : List AnalysisJob} {job : AnalysisJob} {now : Time}

/-- What is ahead of an available job is available. -/
theorem ahead_eq_eligibleAhead (ha : job.Available now) : ahead jobs job = eligibleAhead jobs now job := by
  unfold ahead eligibleAhead
  refine List.countP_congr fun other _ => ?_
  rw [decide_eq_true_iff, decide_eq_true_iff]
  constructor
  · rintro ⟨hs, hp, hne⟩
    refine ⟨⟨hs, ?_⟩, hp, hne⟩
    have hle := ha.2
    unfold AnalysisJob.Precedes at hp
    unfold Time at *
    omega
  · rintro ⟨⟨hs, -⟩, hp, hne⟩
    exact ⟨hs, hp, hne⟩

/-- Rewriting rows brings no job ahead when no row gets ahead. -/
theorem ahead_map_le {g : AnalysisJob → AnalysisJob}
    (hg : ∀ other ∈ jobs, job.Before (g other) → job.Before other) :
    ahead (jobs.map g) job ≤ ahead jobs job := by
  unfold ahead
  rw [List.countP_map]
  refine List.countP_mono_left fun other ho hb => ?_
  simp only [Function.comp_apply, decide_eq_true_eq] at hb ⊢
  exact hg other ho hb

/-- A selection of `limit` jobs takes the job, or `limit` jobs that are ahead of it. -/
theorem selected_or_ahead (hu : DistinctKeys jobs) (hj : job ∈ jobs) (ha : job.Available now)
    (limit : ℕ) (lockedBy : String) :
    job ∈ selectAvailable jobs limit now (fun _ => false) ∨
      ahead (jobs.map fun other =>
        if other ∈ selectAvailable jobs limit now (fun _ => false) then
          other.acquired lockedBy now
        else other) job + limit ≤ ahead jobs job := by
  set chosen := selectAvailable jobs limit now (fun _ => false) with hchosen
  by_cases hin : job ∈ chosen
  · exact .inl hin
  · refine .inr ?_
    have hnodup : jobs.Nodup := List.Nodup.of_map _ hu
    have hfirst : FirstRows AnalysisJob.Precedes limit
        (jobs.filter fun job => job.Available now ∧ (fun _ : Uuid => false) job.id = false) chosen :=
      firstRows_take _ _
    have hmem : ∀ other ∈ chosen, other ∈ jobs ∧ other.Available now := fun other ho =>
      ⟨(mem_selectAvailable ho).1, (mem_selectAvailable ho).2.1⟩
    have hchosenNodup : chosen.Nodup :=
      List.Nodup.of_map _ (selectAvailable_distinctKeys hu limit now fun _ => false)
    have hcand : job ∈ jobs.filter
        (fun job => job.Available now ∧ (fun _ : Uuid => false) job.id = false) := by
      simpa using ⟨hj, ha⟩
    have hlen : chosen.length = limit := hfirst.length_of_not_mem hchosenNodup hcand hin
    have hbefore : ∀ other ∈ chosen, job.Before other := fun other ho =>
      ⟨(hmem other ho).2.1, hfirst.before job hcand hin other ho, fun he => hin (he ▸ ho)⟩
    -- what is still ahead was ahead and is not among the chosen ones
    have hrest : ahead (jobs.map fun other =>
        if other ∈ chosen then other.acquired lockedBy now else other) job ≤
          (jobs.filter fun other => job.Before other ∧ other ∉ chosen).length := by
      unfold ahead
      rw [List.countP_map, ← List.countP_eq_length_filter]
      refine List.countP_mono_left fun other _ hb => ?_
      simp only [Function.comp_apply, decide_eq_true_eq] at hb ⊢
      split at hb
      · simp [AnalysisJob.Before, AnalysisJob.acquired] at hb
      · next hout => exact ⟨hb, hout⟩
    have hsub : (chosen ++ jobs.filter fun other => job.Before other ∧ other ∉ chosen).Subperm
        (jobs.filter fun other => job.Before other) := by
      refine List.subperm_of_subset ?_ fun other ho => ?_
      · refine List.nodup_append.mpr ⟨hchosenNodup, hnodup.filter _, ?_⟩
        rintro a ha _ hb rfl
        simp only [List.mem_filter, decide_eq_true_eq] at hb
        exact hb.2.2 ha
      · rcases List.mem_append.mp ho with ho | ho
        · simpa using ⟨(hmem other ho).1, hbefore other ho⟩
        · simp only [List.mem_filter, decide_eq_true_eq] at ho ⊢
          exact ⟨ho.1, ho.2.1⟩
    have hcount := hsub.length_le
    rw [List.length_append, hlen, ← List.countP_eq_length_filter (l := jobs)] at hcount
    have htotal : ahead jobs job = (jobs.filter fun other => job.Before other).length :=
      List.countP_eq_length_filter
    rw [← List.countP_eq_length_filter] at hrest
    omega

end Selection

/-! ### A waiting job -/

/-- The job has been available since `now`, with at most `k` jobs ahead of it. -/
structure Waiting (job : AnalysisJob) (k : ℕ) (now : Time) (jobs : List AnalysisJob) : Prop where
  unique : DistinctKeys jobs
  mem : job ∈ jobs
  available : job.Available now
  ahead : ahead jobs job ≤ k

section Waiting

variable {jobs : List AnalysisJob} {job other : AnalysisJob} {k : ℕ} {now last : Time}

/-- A job that becomes available later is not ahead. -/
theorem not_before_of_later (ha : job.Available last) (hlater : last < other.availableAfter) :
    ¬ job.Before other := by
  rintro ⟨-, hp, -⟩
  have hle := ha.2
  unfold AnalysisJob.Precedes at hp
  unfold Time at *
  omega

/-- The job goes on waiting while rows that are not ahead of it are written. -/
theorem Waiting.rewrite (h : Waiting job k now jobs) {g : AnalysisJob → AnalysisJob}
    {new : List AnalysisJob} (hu : DistinctKeys (jobs.map g ++ new)) (hjob : g job = job)
    (hg : ∀ other ∈ jobs, g other = other ∨ ¬ job.Before (g other))
    (hnew : ∀ other ∈ new, ¬ job.Before other) : Waiting job k now (jobs.map g ++ new) where
  unique := hu
  mem := List.mem_append_left _ (List.mem_map.mpr ⟨job, h.mem, hjob⟩)
  available := h.available
  ahead := by
    have hmap : Runtime.ahead (jobs.map g) job ≤ Runtime.ahead jobs job :=
      ahead_map_le fun other ho hb => by
        rcases hg other ho with he | hn
        · rwa [he] at hb
        · exact absurd hb hn
    have hzero : Runtime.ahead new job = 0 := by
      unfold Runtime.ahead
      rw [List.countP_eq_zero]
      simpa using hnew
    have happend : Runtime.ahead (jobs.map g ++ new) job =
        Runtime.ahead (jobs.map g) job + Runtime.ahead new job := List.countP_append
    have := h.ahead
    omega

/-- The recovery of a later poll. -/
theorem Waiting.recover (h : Waiting job k last jobs) (hlt : last < now) (timeout : ℤ) :
    Waiting job k now (recoverStaleRunningJobs jobs now timeout fun _ => false) := by
  have hu : DistinctKeys (jobs.map (AnalysisJob.recoverStale now timeout) ++ []) := by
    rw [List.append_nil]
    exact (distinctKeys_map fun _ => recoverStale_id).mpr h.unique
  have hw := h.rewrite hu (recoverStale_of_available ⟨h.available.1, h.available.2.trans hlt.le⟩)
    (fun other _ => ?_) (by simp)
  · rw [recoverStaleRunningJobs_eq, ← List.append_nil (jobs.map _)]
    exact ⟨hw.unique, hw.mem, ⟨hw.available.1, hw.available.2.trans hlt.le⟩, hw.ahead⟩
  · unfold AnalysisJob.recoverStale
    split
    · exact .inr (not_before_of_later h.available hlt)
    · exact .inl rfl

/-- The selection of a poll takes the job, or `limit` of those ahead of it. -/
theorem Waiting.select (h : Waiting job k now jobs) (limit : ℕ) (lockedBy : String) :
    (∃ row ∈ (markAcquired jobs limit lockedBy now fun _ => false).1, row.id = job.id) ∨
      limit ≤ k ∧
        Waiting job (k - limit) now (markAcquired jobs limit lockedBy now fun _ => false).2 := by
  by_cases hin : job ∈ selectAvailable jobs limit now fun _ => false
  · exact .inl ⟨job.acquired lockedBy now, List.mem_map_of_mem hin, rfl⟩
  · have hahead := (selected_or_ahead h.unique h.mem h.available limit lockedBy).resolve_left hin
    have hk := h.ahead
    refine .inr ⟨by omega, ?_, ?_, h.available, ?_⟩
    · exact (distinctKeys_map (Queue.markAcquired_id _ lockedBy now)).mpr h.unique
    · exact List.mem_map.mpr ⟨job, h.mem, if_neg hin⟩
    · unfold markAcquired
      dsimp only
      omega

/-- A finishing call that leaves a job in the queue makes it available after the last poll. -/
theorem Waiting.finish {queue : Queue} (h : Waiting job k last queue.jobs)
    (jobId : Uuid) (fin : Finish)
    (hfin : ∀ row, (fin.write row).status = .queued → last < (fin.write row).availableAfter) :
    Waiting job k last (queue.finish jobId fin).jobs := by
  rcases Queue.finish_cases queue jobId fin with he | ⟨row, hg, hrun, he⟩
  · rwa [he]
  · have hu : DistinctKeys (queue.jobs.map
        (fun r => if key r = jobId then fin.write r else r) ++ []) := by
      rw [List.append_nil]
      exact (distinctKeys_modify (Queue.write_id fin)).mpr h.unique
    rw [he]
    have hw := h.rewrite hu (if_neg ?_) (fun other _ => ?_) (by simp)
    · rwa [List.append_nil] at hw
    · -- the waiting job is not running
      intro hk
      have hj := get_of_mem h.unique h.mem
      rw [hk, hg, Option.some.injEq] at hj
      rw [hj, h.available.1] at hrun
      cases hrun
    · split
      · by_cases hq : (fin.write other).status = .queued
        · exact .inr (not_before_of_later h.available (hfin other hq))
        · exact .inr fun hb => hq hb.1
      · exact .inl rfl

end Waiting

/-! ### Runs with one poller -/

/-- The queue, and the time of the last poll. -/
structure Polled where
  queue : Queue
  lastPoll : Time
  deriving DecidableEq

namespace Polled

def step (configured : ℤ) (s : Polled) (call : Call) : Option Polled :=
  (Queue.step configured s.queue call).map fun queue =>
    ⟨queue, match call with
      | .acquire _ _ now _ => now
      | _ => s.lastPoll⟩

/-- The poller takes up to `limit` jobs, at increasing times; the other calls come after the
last poll, and a job is requeued to a time that is not in the past. -/
def Orderly (limit : ℕ) (s : Polled) : Call → Prop
  | .acquire l _ now _ => l = limit ∧ s.lastPoll < now
  | .createJob _ _ _ _ _ _ _ now => s.lastPoll < now
  | .finish _ (.requeue availableAfter _ _ now) => s.lastPoll < now ∧ now ≤ availableAfter
  | .finish _ (.markCompleted _ now) => s.lastPoll < now
  | .finish _ (.markFailed _ _ _ now) => s.lastPoll < now
  | .retry _ _ _ now => s.lastPoll < now

instance (limit : ℕ) (s : Polled) : DecidablePred (Orderly limit s)
  | .acquire .. => inferInstanceAs (Decidable (_ ∧ _))
  | .createJob .. => inferInstanceAs (Decidable (_ < _))
  | .finish _ (.requeue ..) => inferInstanceAs (Decidable (_ ∧ _))
  | .finish _ (.markCompleted ..) => inferInstanceAs (Decidable (_ < _))
  | .finish _ (.markFailed ..) => inferInstanceAs (Decidable (_ < _))
  | .retry .. => inferInstanceAs (Decidable (_ < _))

def polls (calls : List Call) : ℕ := calls.countP fun
  | .acquire .. => true
  | _ => false

section Run

variable {configured : ℤ} {limit k : ℕ} {s t : Polled} {job : AnalysisJob} {calls : List Call}

/-- The calls between two polls leave the job waiting, and hand out nothing. -/
theorem waiting_step {call : Call} (h : Waiting job k s.lastPoll s.queue.jobs)
    (hcall : polls [call] = 0) (ho : Orderly limit s call) (ht : step configured s call = some t) :
    Waiting job k t.lastPoll t.queue.jobs ∧ t.queue.handed = s.queue.handed := by
  obtain ⟨queue, hq, rfl⟩ := Option.map_eq_some_iff.mp ht
  cases call with
  | acquire => simp [polls] at hcall
  | createJob id sessionId provider model maxAttempts mode dreamId now =>
    simp only [Queue.step, Option.ite_none_right_eq_some, Option.some.injEq] at hq
    obtain ⟨hn, rfl⟩ := hq
    refine ⟨?_, rfl⟩
    set job' := newJob id sessionId provider model maxAttempts mode dreamId now with hjob'
    have hlater : ¬ job.Before job' := not_before_of_later h.available ho
    have hw : Waiting job k s.lastPoll (s.queue.jobs.map (fun row => row) ++ [job']) := by
      refine h.rewrite ?_ rfl (fun _ _ => .inl rfl) (by simpa using hlater)
      rw [List.map_id']
      exact distinctKeys_append_singleton h.unique hn
    rwa [List.map_id'] at hw
  | finish jobId fin =>
    simp only [Queue.step, Option.some.injEq] at hq
    subst hq
    refine ⟨h.finish jobId fin fun row hs => ?_, Queue.finish_handed _ _ _⟩
    cases fin with
    | requeue => exact lt_of_lt_of_le ho.1 ho.2
    | markCompleted | markFailed => simp [Queue.Finish.status] at hs
  | retry copy errorClass errorMessage now =>
    simp only [Queue.step, Option.ite_none_right_eq_some, Option.some.injEq] at hq
    obtain ⟨-, rfl⟩ := hq
    refine ⟨h.finish copy.id _ fun row hs => ?_, Queue.finish_handed _ _ _⟩
    unfold Queue.handleRetryableFailure at hs ⊢
    split
    · show s.lastPoll < now + seconds 5
      have hlt : s.lastPoll < now := ho
      unfold seconds
      unfold Time at *
      omega
    · next hexhausted =>
      rw [if_neg hexhausted] at hs
      simp [Queue.Finish.status] at hs

/-- What has been handed out stays so. -/
theorem handed_step {call : Call} (ht : step configured s call = some t) :
    ∃ new, t.queue.handed = s.queue.handed ++ new := by
  obtain ⟨queue, hq, rfl⟩ := Option.map_eq_some_iff.mp ht
  cases call with
  | createJob =>
    simp only [Queue.step, Option.ite_none_right_eq_some, Option.some.injEq] at hq
    exact ⟨[], by rw [← hq.2, List.append_nil]⟩
  | acquire =>
    simp only [Queue.step, Option.some.injEq] at hq
    exact ⟨_, by rw [← hq]⟩
  | finish jobId fin =>
    simp only [Queue.step, Option.some.injEq] at hq
    exact ⟨[], by rw [List.append_nil, ← hq, Queue.finish_handed]⟩
  | retry copy errorClass errorMessage now =>
    simp only [Queue.step, Option.ite_none_right_eq_some, Option.some.injEq] at hq
    exact ⟨[], by rw [List.append_nil, ← hq.2, Queue.finish_handed]⟩

theorem timesHanded_step_le {call : Call} (ht : step configured s call = some t) (id : Uuid) :
    s.queue.timesHanded id ≤ t.queue.timesHanded id := by
  obtain ⟨new, hnew⟩ := handed_step ht
  unfold Queue.timesHanded
  rw [hnew, List.map_append, List.count_append]
  omega

theorem timesHanded_le (hr : Runs.run (step configured) s calls = some t) (id : Uuid) :
    s.queue.timesHanded id ≤ t.queue.timesHanded id := by
  induction calls generalizing s with
  | nil =>
    cases hr
    exact le_rfl
  | cons call calls ih =>
    rw [run_cons, Option.bind_eq_some_iff] at hr
    obtain ⟨u, hu, hr⟩ := hr
    exact (timesHanded_step_le hu id).trans (ih hr)

/-- A poll at which the job is available hands it out, or takes `limit` of the jobs ahead of
it. -/
theorem poll_step (hlimit : 1 ≤ limit) {lockedBy : String} {now : Time} {stale : Option ℤ}
    (h : Waiting job k now (recoverStaleRunningJobs s.queue.jobs now
      (staleSeconds stale configured) fun _ => false))
    (ht : step configured s (.acquire limit lockedBy now stale) = some t) :
    s.queue.timesHanded job.id < t.queue.timesHanded job.id ∨
      limit ≤ k ∧ Waiting job (k - limit) t.lastPoll t.queue.jobs := by
  obtain ⟨queue, hq, rfl⟩ := Option.map_eq_some_iff.mp ht
  simp only [Queue.step, acquireAvailableJobs, if_neg (by omega : ¬ (limit : ℤ) ≤ 0),
    Option.some.injEq] at hq
  subst hq
  rcases h.select limit lockedBy with ⟨row, hrow, hid⟩ | hw
  · refine .inl ?_
    have hpos : 0 < ((markAcquired (recoverStaleRunningJobs s.queue.jobs now
        (staleSeconds stale configured) fun _ => false) limit lockedBy now
        fun _ => false).1.map AnalysisJob.id).count job.id :=
      List.count_pos_iff.mpr (List.mem_map.mpr ⟨row, hrow, hid⟩)
    unfold Queue.timesHanded
    rw [List.map_append, List.count_append]
    omega
  · exact .inr hw

/-- A poll, and the calls after it that hand out whatever still waits. -/
theorem handed_of_poll (hlimit : 1 ≤ limit) {lockedBy : String} {now : Time} {stale : Option ℤ}
    {u : Polled} (h : Waiting job k now (recoverStaleRunningJobs s.queue.jobs now
      (staleSeconds stale configured) fun _ => false))
    (hstep : step configured s (.acquire limit lockedBy now stale) = some u)
    (hr : Runs.run (step configured) u calls = some t)
    (hpolls : k / limit < polls (.acquire limit lockedBy now stale :: calls))
    (hrest : ∀ k', Waiting job k' u.lastPoll u.queue.jobs → k' / limit < polls calls →
      u.queue.timesHanded job.id < t.queue.timesHanded job.id) :
    s.queue.timesHanded job.id < t.queue.timesHanded job.id := by
  have hone : polls (.acquire limit lockedBy now stale :: calls) = polls calls + 1 := by
    simp [polls]
  have hmono := timesHanded_le hr job.id
  have hmono' := timesHanded_step_le hstep job.id
  rcases poll_step hlimit h hstep with hhanded | ⟨hle, hw⟩
  · omega
  · have hdiv : k / limit = (k - limit) / limit + 1 := Nat.div_eq_sub_div (by omega) hle
    have hlt := hrest (k - limit) hw (by omega)
    omega

/-- The run lemma: after `k / limit` further polls the job has been handed out. -/
theorem handed_of_waiting (hlimit : 1 ≤ limit) (h : Waiting job k s.lastPoll s.queue.jobs)
    (hg : Guarded (step configured) (Orderly limit) s calls)
    (hr : Runs.run (step configured) s calls = some t) (hpolls : k / limit < polls calls) :
    s.queue.timesHanded job.id < t.queue.timesHanded job.id := by
  induction calls generalizing s k with
  | nil => simp [polls] at hpolls
  | cons call calls ih =>
    rw [run_cons, Option.bind_eq_some_iff] at hr
    obtain ⟨u, hu, hr⟩ := hr
    obtain ⟨ho, hrest'⟩ := hg u hu
    by_cases hcall : polls [call] = 0
    · obtain ⟨hw, hhanded⟩ := waiting_step h hcall ho hu
      have hrest : polls (call :: calls) = polls calls := by
        unfold polls at hcall ⊢
        rw [← List.singleton_append, List.countP_append, hcall, Nat.zero_add]
      have hlt := ih hw hrest' hr (hrest ▸ hpolls)
      unfold Queue.timesHanded at hlt ⊢
      rwa [hhanded] at hlt
    · cases call with
      | createJob | finish | retry => exact absurd rfl hcall
      | acquire l lockedBy now stale =>
        obtain ⟨rfl, hlt⟩ := ho
        exact handed_of_poll hlimit (h.recover hlt _) hu hr hpolls fun _ hw => ih hw hrest' hr

/-- A job that is available at a poll, with `k` available jobs before it, is acquired no later
than the poll number `k / limit` after that one. -/
theorem acquired_within (hlimit : 1 ≤ limit) (hu : DistinctKeys s.queue.jobs) {lockedBy : String}
    {now : Time} {stale : Option ℤ}
    (hj : job ∈ recoverStaleRunningJobs s.queue.jobs now (staleSeconds stale configured)
      fun _ => false)
    (ha : job.Available now)
    (hk : eligibleAhead (recoverStaleRunningJobs s.queue.jobs now
      (staleSeconds stale configured) fun _ => false) now job = k)
    (hg : Guarded (step configured) (Orderly limit) s (.acquire limit lockedBy now stale :: calls))
    (hr : Runs.run (step configured) s (.acquire limit lockedBy now stale :: calls) = some t)
    (hpolls : k / limit < polls (.acquire limit lockedBy now stale :: calls)) :
    s.queue.timesHanded job.id < t.queue.timesHanded job.id := by
  rw [run_cons, Option.bind_eq_some_iff] at hr
  obtain ⟨u, hstep, hr⟩ := hr
  obtain ⟨-, hg⟩ := hg u hstep
  have hw : Waiting job k now (recoverStaleRunningJobs s.queue.jobs now
      (staleSeconds stale configured) fun _ => false) := by
    refine ⟨?_, hj, ha, ?_⟩
    · rw [recoverStaleRunningJobs_eq]
      exact (distinctKeys_map fun _ => recoverStale_id).mpr hu
    · rw [ahead_eq_eligibleAhead ha, hk]
  exact handed_of_poll hlimit hw hstep hr hpolls fun _ hw => handed_of_waiting hlimit hw hg hr

end Run

namespace Waiting

/-- The job behind the other one. -/
def second : AnalysisJob := newJob 2 7 "mock" "mock-v1" 3 .auto none 1

/-- Two queued jobs, none handed out. -/
def queue : Polled := ⟨⟨[newJob 1 7 "mock" "mock-v1" 3 .auto none 0, second], []⟩, 1⟩

/-- Between two polls the first job is requeued and a third one is created. -/
def calls : List Call :=
  [.finish 1 (.requeue (seconds 8) "RetryableAnalysisError" "LLM timeout" (seconds 3)),
    .createJob 3 7 "mock" "mock-v1" 3 .auto none (seconds 4),
    .acquire 1 "worker-a" (seconds 9) none]

def served : Polled :=
  (Runs.run (step 180) queue (.acquire 1 "worker-a" (seconds 2) none :: calls)).getD queue

theorem acquired_within_calls : queue.queue.timesHanded 2 < served.queue.timesHanded 2 := by
  have hg : Guarded (step 180) (Orderly 1) queue (.acquire 1 "worker-a" (seconds 2) none :: calls) := by
    decide
  have hr : Runs.run (step 180) queue (.acquire 1 "worker-a" (seconds 2) none :: calls) =
      some served := by decide
  have hk : eligibleAhead (recoverStaleRunningJobs queue.queue.jobs (seconds 2)
      (staleSeconds none 180) fun _ => false) (seconds 2) second = 1 := by decide
  have hu : DistinctKeys queue.queue.jobs := by
    show ([1, 2] : List ℕ).Nodup
    decide
  exact acquired_within le_rfl hu (by decide) (by decide) hk hg hr (by decide)

end Waiting

end Polled

end LiberNovus.Runtime

import LiberNovus.Foundation.Ordering
import LiberNovus.Runtime.Job

/-! What an acquisition does to the table of jobs when no row is locked: the recovery of
stale locks rewrites rows that the selection after it competes for.

Proved: the acquired jobs are the first ones, up to the limit, of the queued jobs that are
available and the stale running jobs, which count as available from now on; the other stale
jobs are queued again, and no other row is changed. -/

namespace LiberNovus.Runtime

open Rows LiberNovus.Ordering

/-! ### Candidates -/

/-- The jobs that compete for an acquisition, with `timeout` seconds until a lock is stale. -/
def AnalysisJob.Candidate (now : Time) (timeout : ℤ) (job : AnalysisJob) : Prop :=
  job.Available now ∨ job.Stale (now - seconds timeout)

instance (now : Time) (timeout : ℤ) (job : AnalysisJob) : Decidable (job.Candidate now timeout) :=
  inferInstanceAs (Decidable (_ ∨ _))

/-- From when on a candidate is available; a stale one is so from now on. -/
def AnalysisJob.availableFrom (now : Time) (job : AnalysisJob) : Time :=
  if job.status = .running then now else job.availableAfter

/-- The order of the candidates. -/
def AnalysisJob.Ahead (now : Time) (a b : AnalysisJob) : Prop :=
  a.availableFrom now < b.availableFrom now ∨ a.availableFrom now = b.availableFrom now ∧
    (a.createdAt < b.createdAt ∨ a.createdAt = b.createdAt ∧ a.id < b.id)

/-- The columns of a job that no acquisition changes. -/
structure AnalysisJob.SameJob (before after : AnalysisJob) : Prop where
  id : after.id = before.id
  sessionId : after.sessionId = before.sessionId
  dreamId : after.dreamId = before.dreamId
  threadId : after.threadId = before.threadId
  provider : after.provider = before.provider
  model : after.model = before.model
  mode : after.mode = before.mode
  maxAttempts : after.maxAttempts = before.maxAttempts
  createdAt : after.createdAt = before.createdAt
  completedAt : after.completedAt = before.completedAt

/-- A candidate before and after it is acquired. -/
structure AnalysisJob.Taken (lockedBy : String) (now : Time) (before after : AnalysisJob) : Prop
    extends before.SameJob after where
  status : after.status = .running
  attempts : after.attempts = before.attempts + 1
  lockedBy : after.lockedBy = some lockedBy
  lockedAt : after.lockedAt = some now
  availableAfter : after.availableAfter = before.availableFrom now

/-- A stale job before and after it is queued again. -/
structure AnalysisJob.QueuedAgain (now : Time) (before after : AnalysisJob) : Prop
    extends before.SameJob after where
  status : after.status = .queued
  attempts : after.attempts = before.attempts
  startedAt : after.startedAt = before.startedAt
  lockedBy : after.lockedBy = none
  lockedAt : after.lockedAt = none
  availableAfter : after.availableAfter = now

/-- What happens to a row when the jobs `chosen` are acquired. -/
def AnalysisJob.RowAfter (chosen : List AnalysisJob) (lockedBy : String) (now : Time)
    (timeout : ℤ) (before after : AnalysisJob) : Prop :=
  if before ∈ chosen then before.Taken lockedBy now after
  else if before.Stale (now - seconds timeout) then before.QueuedAgain now after
  else after = before

/-- `returned` and `after` are what an acquisition from the table `db` has to return and to
leave: the first `limit` candidates are taken, in their order. -/
def AcquiresFirst (db : List AnalysisJob) (limit : ℤ) (lockedBy : String) (now : Time)
    (timeout : ℤ) (returned after : List AnalysisJob) : Prop :=
  ∃ chosen : List AnalysisJob,
    FirstRows (AnalysisJob.Ahead now) limit.toNat
      (db.filter fun job => job.Candidate now timeout) chosen ∧
    List.Forall₂ (AnalysisJob.Taken lockedBy now) chosen returned ∧
    (∀ job ∈ returned, job ∈ after) ∧
    List.Forall₂ (AnalysisJob.RowAfter chosen lockedBy now timeout) db after

/-! ### The recovery -/

/-- What the recovery makes of a row that nobody has locked. -/
def AnalysisJob.recoverStale (now : Time) (timeout : ℤ) (job : AnalysisJob) : AnalysisJob :=
  if job.Stale (now - seconds timeout) then job.recovered now timeout else job

section Recovery

variable {now : Time} {timeout : ℤ} {a b job : AnalysisJob}

theorem recoverStaleRunningJobs_eq (db : List AnalysisJob) (now : Time) (timeout : ℤ) :
    recoverStaleRunningJobs db now timeout (fun _ => false) =
      db.map (AnalysisJob.recoverStale now timeout) := by
  simp [recoverStaleRunningJobs, AnalysisJob.recoverStale]

@[simp] theorem recoverStale_id : (job.recoverStale now timeout).id = job.id := by
  unfold AnalysisJob.recoverStale
  split <;> rfl

theorem recoverStale_of_available (h : job.Available now) : job.recoverStale now timeout = job := by
  exact if_neg fun hs => absurd (h.1.symm.trans hs.1) (by simp)

/-- The candidates are the jobs that are available once the stale ones are recovered. -/
theorem available_recoverStale :
    (job.recoverStale now timeout).Available now ↔ job.Candidate now timeout := by
  by_cases hs : job.Stale (now - seconds timeout)
  · refine iff_of_true ?_ (.inr hs)
    rw [AnalysisJob.recoverStale, if_pos hs]
    exact ⟨rfl, le_rfl⟩
  · rw [AnalysisJob.recoverStale, if_neg hs]
    exact (or_iff_left hs).symm

theorem availableAfter_recoverStale (h : job.Candidate now timeout) :
    (job.recoverStale now timeout).availableAfter = job.availableFrom now := by
  rcases h with h | h
  · rw [recoverStale_of_available h, AnalysisJob.availableFrom, if_neg (by simp [h.1])]
  · rw [AnalysisJob.recoverStale, if_pos h, AnalysisJob.availableFrom, if_pos h.1]
    rfl

theorem createdAt_recoverStale : (job.recoverStale now timeout).createdAt = job.createdAt := by
  unfold AnalysisJob.recoverStale
  split <;> rfl

instance : Std.Total AnalysisJob.Precedes := ⟨fun a b => by
  unfold AnalysisJob.Precedes Time Uuid
  omega⟩

instance : IsTrans AnalysisJob AnalysisJob.Precedes := ⟨fun a b c hab hbc => by
  unfold AnalysisJob.Precedes Time Uuid at *
  omega⟩

/-- The order in which the recovered rows are selected. -/
def AnalysisJob.RecoveredPrecedes (now : Time) (timeout : ℤ) (a b : AnalysisJob) : Prop :=
  (a.recoverStale now timeout).Precedes (b.recoverStale now timeout)

instance : DecidableRel (AnalysisJob.RecoveredPrecedes now timeout) :=
  fun _ _ => inferInstanceAs (Decidable (AnalysisJob.Precedes _ _))

instance : Std.Total (AnalysisJob.RecoveredPrecedes now timeout) :=
  ⟨fun _ _ => Std.Total.total (r := AnalysisJob.Precedes) _ _⟩

instance : IsTrans AnalysisJob (AnalysisJob.RecoveredPrecedes now timeout) :=
  ⟨fun _ _ _ hab hbc => IsTrans.trans (r := AnalysisJob.Precedes) _ _ _ hab hbc⟩

theorem ahead_of_recoveredPrecedes (ha : a.Candidate now timeout) (hb : b.Candidate now timeout)
    (hne : a.id ≠ b.id) (h : a.RecoveredPrecedes now timeout b) : a.Ahead now b := by
  unfold AnalysisJob.RecoveredPrecedes AnalysisJob.Precedes at h
  simp only [availableAfter_recoverStale ha, availableAfter_recoverStale hb,
    createdAt_recoverStale, recoverStale_id] at h
  unfold AnalysisJob.Ahead
  unfold Time Uuid at *
  omega

end Recovery

/-! ### The acquisition -/

section Acquisition

variable {db : List AnalysisJob} {limit : ℤ} {lockedBy : String} {now : Time} {timeout : ℤ}

/-- The jobs that are acquired, as they were before. -/
def chosenJobs (db : List AnalysisJob) (limit : ℤ) (now : Time) (timeout : ℤ) :
    List AnalysisJob :=
  ((db.filter fun job => job.Candidate now timeout).insertionSort
    (AnalysisJob.RecoveredPrecedes now timeout)).take limit.toNat

theorem selectAvailable_recovered :
    selectAvailable (db.map (AnalysisJob.recoverStale now timeout)) limit now (fun _ => false) =
      (chosenJobs db limit now timeout).map (AnalysisJob.recoverStale now timeout) := by
  have hfilter : (db.map (AnalysisJob.recoverStale now timeout)).filter
      (fun job => job.Available now ∧ (fun _ : Uuid => false) job.id = false) =
        (db.filter fun job => job.Candidate now timeout).map
          (AnalysisJob.recoverStale now timeout) := by
    rw [List.filter_map]
    refine congrArg _ (List.filter_congr fun job _ => ?_)
    simp [available_recoverStale]
  rw [selectAvailable, hfilter, chosenJobs, List.map_take]
  refine congrArg _ (List.map_insertionSort _ _ _ _ fun _ _ _ _ => ?_).symm
  exact Iff.rfl

theorem firstRows_chosenJobs (hu : DistinctKeys db) :
    FirstRows (AnalysisJob.Ahead now) limit.toNat
      (db.filter fun job => job.Candidate now timeout) (chosenJobs db limit now timeout) := by
  have h : FirstRows (AnalysisJob.RecoveredPrecedes now timeout) limit.toNat
      (db.filter fun job => job.Candidate now timeout) (chosenJobs db limit now timeout) :=
    firstRows_take _ _
  have hcand : ∀ job ∈ db.filter (fun job => job.Candidate now timeout),
      job ∈ db ∧ job.Candidate now timeout := fun job hj => by simpa using hj
  have hkeys : ∀ a ∈ db, ∀ b ∈ db, a ≠ b → a.id ≠ b.id := fun a ha b hb hne hid =>
    hne (List.inj_on_of_nodup_map hu ha hb hid)
  have hnodup : (chosenJobs db limit now timeout).Nodup := by
    refine List.Nodup.sublist (List.take_sublist _ _) ?_
    rw [List.Perm.nodup_iff (List.perm_insertionSort _ _)]
    exact (List.Nodup.of_map _ hu).filter _
  refine ⟨h.subset, h.length, ?_, fun x hx hout y hy => ?_⟩
  · refine (h.sorted.and hnodup).imp_of_mem fun {a b} ha hb hab => ?_
    obtain ⟨ha, hac⟩ := hcand a (h.subset ha)
    obtain ⟨hb, hbc⟩ := hcand b (h.subset hb)
    exact ahead_of_recoveredPrecedes hac hbc (hkeys a ha b hb hab.2) hab.1
  · obtain ⟨hxm, hxc⟩ := hcand x hx
    obtain ⟨hym, hyc⟩ := hcand y (h.subset hy)
    have hne : y ≠ x := fun he => hout (he ▸ hy)
    exact ahead_of_recoveredPrecedes hyc hxc (hkeys y hym x hxm hne) (h.before x hx hout y hy)

/-- A candidate is recovered if need be, and then acquired. -/
theorem taken_acquired {job : AnalysisJob} (h : job.Candidate now timeout) :
    job.Taken lockedBy now ((job.recoverStale now timeout).acquired lockedBy now) := by
  have hfrom := availableAfter_recoverStale h
  unfold AnalysisJob.recoverStale at hfrom ⊢
  split at hfrom
  · next hs =>
    rw [if_pos hs]
    exact ⟨⟨rfl, rfl, rfl, rfl, rfl, rfl, rfl, rfl, rfl, rfl⟩, rfl, rfl, rfl, rfl, hfrom⟩
  · next hs =>
    rw [if_neg hs]
    exact ⟨⟨rfl, rfl, rfl, rfl, rfl, rfl, rfl, rfl, rfl, rfl⟩, rfl, rfl, rfl, rfl, hfrom⟩

theorem mem_chosenJobs {job : AnalysisJob} (h : job ∈ chosenJobs db limit now timeout) :
    job ∈ db ∧ job.Candidate now timeout := by
  have hs := (List.perm_insertionSort _ _).subset (List.mem_of_mem_take h)
  simpa using hs

def AnalysisJob.afterAcquisition (chosen : List AnalysisJob) (lockedBy : String) (now : Time)
    (timeout : ℤ) (job : AnalysisJob) : AnalysisJob :=
  if job ∈ chosen then (job.recoverStale now timeout).acquired lockedBy now
  else job.recoverStale now timeout

@[simp] theorem afterAcquisition_id (chosen : List AnalysisJob) (job : AnalysisJob) :
    (job.afterAcquisition chosen lockedBy now timeout).id = job.id := by
  unfold AnalysisJob.afterAcquisition
  split
  · rw [acquired_id, recoverStale_id]
  · exact recoverStale_id

/-- The acquired rows and the table, row by row. -/
theorem acquireAvailableJobs_eq (hu : DistinctKeys db) (hlimit : 1 ≤ limit) (lockedBy : String)
    (now : Time) (staleTimeoutSeconds : Option ℤ) (configured : ℤ) :
    acquireAvailableJobs db limit lockedBy now staleTimeoutSeconds configured (fun _ => false) =
      ((chosenJobs db limit now (staleSeconds staleTimeoutSeconds configured)).map fun job =>
          (job.recoverStale now (staleSeconds staleTimeoutSeconds configured)).acquired lockedBy
            now,
        db.map (AnalysisJob.afterAcquisition
          (chosenJobs db limit now (staleSeconds staleTimeoutSeconds configured)) lockedBy now
          (staleSeconds staleTimeoutSeconds configured))) := by
  set timeout := staleSeconds staleTimeoutSeconds configured with htimeout
  set chosen := chosenJobs db limit now timeout with hchosen
  have hsel : ∀ job ∈ db, job.recoverStale now timeout ∈
      chosen.map (AnalysisJob.recoverStale now timeout) ↔ job ∈ chosen := by
    intro job hj
    refine ⟨fun hm => ?_, List.mem_map_of_mem⟩
    obtain ⟨other, ho, he⟩ := List.mem_map.mp hm
    have hid : other.id = job.id := by simpa using congrArg AnalysisJob.id he
    exact List.inj_on_of_nodup_map hu (mem_chosenJobs ho).1 hj hid ▸ ho
  rw [acquireAvailableJobs, if_neg (by omega), ← htimeout, recoverStaleRunningJobs_eq,
    markAcquired, selectAvailable_recovered, ← hchosen]
  refine Prod.ext (by simp [Function.comp_def]) ?_
  dsimp only
  rw [List.map_map]
  refine List.map_congr_left fun job hj => ?_
  simp only [Function.comp_apply, hsel job hj, AnalysisJob.afterAcquisition]

/-! ### A job that is not recovered -/

section Row

variable {row acquired : AnalysisJob} {id : Uuid} {staleTimeoutSeconds : Option ℤ} {configured : ℤ}

theorem not_stale_of_not_running (h : row.status ≠ .running) (staleBefore : Time) :
    0 < limit → ¬ row.Stale staleBefore := fun _ hs => h hs.1

theorem distinctKeys_acquireAvailableJobs (hu : DistinctKeys db) (limit : ℤ) :
    DistinctKeys (acquireAvailableJobs db limit lockedBy now staleTimeoutSeconds configured
      fun _ => false).2 := by
  by_cases hlimit : limit ≤ 0
  · rwa [acquireAvailableJobs, if_pos hlimit]
  · rw [acquireAvailableJobs_eq hu (by omega)]
    exact (distinctKeys_map fun job => afterAcquisition_id _ job).mpr hu

variable (hu : DistinctKeys db) (hrow : get db id = some row)
  (hfresh : 0 < limit → ¬ row.Stale (now - seconds (staleSeconds staleTimeoutSeconds configured)))
include hu hrow hfresh

/-- It is acquired when it is available. -/
theorem get_acquired (h : get (acquireAvailableJobs db limit lockedBy now staleTimeoutSeconds
      configured fun _ => false).1 id = some acquired) :
    row.Available now ∧ acquired = row.acquired lockedBy now ∧
      get (acquireAvailableJobs db limit lockedBy now staleTimeoutSeconds configured
        fun _ => false).2 id = some acquired := by
  by_cases hlimit : limit ≤ 0
  · rw [acquireAvailableJobs, if_pos hlimit] at h
    cases h
  rw [acquireAvailableJobs_eq hu (by omega)] at h ⊢
  set timeout := staleSeconds staleTimeoutSeconds configured with htimeout
  obtain ⟨job, hj, rfl⟩ := List.mem_map.mp (mem_of_get h)
  obtain ⟨hm, hcandidate⟩ := mem_chosenJobs hj
  have hid : job.id = id := by simpa using key_of_get h
  obtain rfl : row = job := by
    have hget := get_of_mem hu hm
    rw [key_job, hid, hrow] at hget
    exact Option.some.inj hget
  have hsame : row.recoverStale now timeout = row := if_neg (hfresh (by omega))
  rw [hsame]
  refine ⟨hcandidate.resolve_right (hfresh (by omega)), rfl, ?_⟩
  rw [get_map fun job => afterAcquisition_id _ job, hrow, Option.map_some,
    AnalysisJob.afterAcquisition, if_pos hj, hsame]

/-- It stays as it is when it is not acquired. -/
theorem get_not_acquired (h : get (acquireAvailableJobs db limit lockedBy now staleTimeoutSeconds
      configured fun _ => false).1 id = none) :
    get (acquireAvailableJobs db limit lockedBy now staleTimeoutSeconds configured
      fun _ => false).2 id = some row := by
  by_cases hlimit : limit ≤ 0
  · rwa [acquireAvailableJobs, if_pos hlimit]
  rw [acquireAvailableJobs_eq hu (by omega)] at h ⊢
  set timeout := staleSeconds staleTimeoutSeconds configured with htimeout
  have hout : row ∉ chosenJobs db limit now timeout := by
    intro hm
    refine get_eq_none.mp h (List.mem_map.mpr ⟨_, List.mem_map_of_mem hm, ?_⟩)
    rw [key_job, acquired_id, recoverStale_id]
    exact key_of_get hrow
  rw [get_map fun job => afterAcquisition_id _ job, hrow, Option.map_some,
    AnalysisJob.afterAcquisition, if_neg hout]
  exact congrArg some (if_neg (hfresh (by omega)))

end Row

/-! ### All jobs -/

/-- `acquire_available_jobs` on a table with no locked rows takes the first candidates; the
timeout is the given one, or the configured one when none (or zero) is given. -/
theorem acquireAvailableJobs_acquiresFirst (hu : DistinctKeys db) (hlimit : 1 ≤ limit)
    (lockedBy : String) (now : Time) (staleTimeoutSeconds : Option ℤ) (configured : ℤ) :
    AcquiresFirst db limit lockedBy now (staleSeconds staleTimeoutSeconds configured)
      (acquireAvailableJobs db limit lockedBy now staleTimeoutSeconds configured
        fun _ => false).1
      (acquireAvailableJobs db limit lockedBy now staleTimeoutSeconds configured
        fun _ => false).2 := by
  rw [acquireAvailableJobs_eq hu hlimit]
  set timeout := staleSeconds staleTimeoutSeconds configured with htimeout
  set chosen := chosenJobs db limit now timeout with hchosen
  have hfirst : FirstRows (AnalysisJob.Ahead now) limit.toNat
      (db.filter fun job => job.Candidate now timeout) chosen := firstRows_chosenJobs hu
  refine ⟨chosen, hfirst, ?_, ?_, ?_⟩
  · rw [List.forall₂_map_right_iff, List.forall₂_same]
    exact fun job hj => taken_acquired (mem_chosenJobs hj).2
  · intro row hrow
    obtain ⟨job, hj, rfl⟩ := List.mem_map.mp hrow
    exact List.mem_map.mpr ⟨job, (mem_chosenJobs hj).1, if_pos hj⟩
  · rw [List.forall₂_map_right_iff, List.forall₂_same]
    intro job hj
    unfold AnalysisJob.RowAfter AnalysisJob.afterAcquisition
    split
    · next hc => exact taken_acquired (mem_chosenJobs hc).2
    · unfold AnalysisJob.recoverStale
      split
      · exact ⟨⟨rfl, rfl, rfl, rfl, rfl, rfl, rfl, rfl, rfl, rfl⟩, rfl, rfl, rfl, rfl, rfl, rfl⟩
      · rfl

end Acquisition

namespace Acquisition

/-- A job whose worker died at time 0, and one that has become available since. -/
def table : List AnalysisJob :=
  [(newJob 1 7 "mock" "mock-v1" 3 .auto none 0).acquired "worker-a" 0,
    newJob 2 7 "mock" "mock-v1" 3 .auto none (seconds 100)]

theorem distinctKeys_table : DistinctKeys table := by
  show ([1, 2] : List ℕ).Nodup
  decide

theorem acquiresFirst_table : AcquiresFirst table 1 "worker-b" (seconds 200) 180
    (acquireAvailableJobs table 1 "worker-b" (seconds 200) (some 180) 60 fun _ => false).1
    (acquireAvailableJobs table 1 "worker-b" (seconds 200) (some 180) 60 fun _ => false).2 :=
  acquireAvailableJobs_acquiresFirst distinctKeys_table le_rfl "worker-b" (seconds 200) (some 180) 60

/-- The recovered job is behind the one that was queued before. -/
example : (acquireAvailableJobs table 1 "worker-b" (seconds 200) (some 180) 60
    fun _ => false).1.map AnalysisJob.id = [2] := by decide

end Acquisition

end LiberNovus.Runtime

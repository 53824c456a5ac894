import Mathlib.Algebra.BigOperators.Group.Finset.Basic
import LiberNovus.Runtime.Acquisition
import LiberNovus.Runtime.Atomicity

/-! One worker and a queue that nobody adds to: poll after poll, with the executions of the jobs
that each of them acquires, while the other tables may change in any way.

Proved: an execution does to the table of jobs what one call of the queue service on its row does,
or nothing; and if no execution leaves its job running and time goes on, the queue runs empty,
after no more executions than the attempts that its jobs have left. -/

namespace LiberNovus.Runtime.Drain

open Rows UnitOfWork Session Analysis Analysis.Pipeline Memory

/-! ### One execution -/

/-- The call that an executor makes: a job is queued again while it has attempts left. -/
def Conduct (job : AnalysisJob) (fin : Queue.Finish) : Prop :=
  fin.status = .queued → job.attempts < job.maxAttempts

/-- One call on the row of the job has taken effect, or none. -/
def OneCall (job : AnalysisJob) (db after : Database) : Prop :=
  after.jobs = db.jobs ∨ ∃ fin row, Conduct job fin ∧ get db.jobs job.id = some row ∧
    row.status = .running ∧ after.jobs = modify db.jobs job.id fin.write

section Execution

variable {env : Environment} {deliver : AnalysisJob → SessionAnalysis → Except String Unit}
  {job : AnalysisJob} {db : Database}

theorem conduct_handleFailure (e : RunError) : Conduct job (handleFailure env job e) := by
  unfold Conduct handleFailure
  split
  · unfold Queue.handleRetryableFailure
    split
    · next hlt => exact fun _ => hlt
    · simp [Queue.Finish.status]
  · simp [Queue.Finish.status]

theorem ignores_oneCall (env : Environment) (job : AnalysisJob) (db : Database) :
    Ignores env (OneCall job db) := ⟨fun _ _ h => h, fun _ _ h => h, fun _ _ h => h⟩

/-- A call takes the job out of `running`, and so it is the last that takes effect. -/
theorem oneCall_callQueue {fin : Queue.Finish} (hfin : Conduct job fin) (db : Database) :
    Tx.Keeps (OneCall job db) False (callQueue job.id fin) := by
  refine .statement fun t _ t' h he => ?_
  split at he <;> cases he
  next hcall =>
    rw [Queue.Finish.call_eq, transition_ok] at hcall
    obtain ⟨row, hrow, hrun, hr⟩ := hcall
    obtain ⟨rfl, rfl⟩ := Prod.mk.inj hr
    rcases h with hsame | ⟨first, row₀, -, hrow₀, -, hjobs⟩
    · rw [hsame] at hrow
      exact .inr ⟨fin, row, hfin, hrow, hrun, by rw [hsame]⟩
    · rw [hjobs, get_modify (Queue.write_id first), if_pos rfl, hrow₀, Option.map_some] at hrow
      cases hrow
      rw [Queue.Finish.write_status] at hrun
      exact absurd hrun first.status_ne_running

variable [CharTable]

theorem oneCall_executeWithJobBinding (db : Database) :
    Tx.Keeps (OneCall job db) False (executeWithJobBinding env job) := by
  unfold executeWithJobBinding
  split
  · exact .bind (.bind (keeps_assembleDreamMemory (fun _ _ h => h) _ _) fun _ =>
      .bind (keeps_upsertDreamMemory (fun _ _ h => h) _ _ _ _ _) fun _ => .pure _) fun _ => .raise _
  · exact .bind (keeps_assembleRuntimeAnalysis (ignores_oneCall env job db) fun _ _ _ h _ => h)
      fun _ => .bind (Environment.keeps_others (fun _ _ h => h) _) fun _ =>
        keeps_persistSessionAnalysisInThread (ignores_oneCall env job db) _ _

theorem oneCall_execute : OneCall job db (execute env deliver job db).2 := by
  have hcompleted : ∀ threadId now, Conduct job (.markCompleted threadId now) := fun _ _ h => by cases h
  have hattempt : Tx.Keeps (OneCall job db) False (attemptJob env job) := by
    refine .bind (.attempt (oneCall_executeWithJobBinding db)) fun r => ?_
    split
    · exact .pure _
    · exact .bind (oneCall_callQueue (hcompleted _ _) db) fun _ => .pure _
    · exact .fail _
  have hexecute : Tx.Keeps (OneCall job db) False (executeAnalysisJob env deliver job) := by
    refine .bind (.attempt hattempt) fun r => ?_
    split
    · exact oneCall_callQueue (conduct_handleFailure _) db
    · exact .pure _
    · refine .bind (oneCall_callQueue (hcompleted _ _) db) fun _ => ?_
      split
      · exact .bind (.lift _) fun _ => .pure _
      · exact .pure _
  exact (hexecute (.opened db) ⟨.inl rfl, .inl rfl, False.elim⟩).transaction

end Execution

/-! ### The attempts that are left -/

/-- How often the job may still be handed out. -/
def left (job : AnalysisJob) : ℕ :=
  match job.status with
  | .queued => (max 1 (job.maxAttempts - job.attempts)).toNat
  | .running => (job.maxAttempts - job.attempts).toNat
  | .completed | .failed | .cancelled => 0

def work : List AnalysisJob → ℕ
  | [] => 0
  | job :: jobs => left job + work jobs

section Work

variable {jobs : List AnalysisJob} {job row : AnalysisJob}

theorem left_acquired (h : job.status = .queued) (lockedBy : String) (now : Time) :
    left (job.acquired lockedBy now) + 1 ≤ left job := by
  simp only [left, AnalysisJob.acquired, h]
  omega

theorem left_write {fin : Queue.Finish} (hfin : Conduct job fin) (hrun : row.status = .running)
    (hattempts : row.attempts = job.attempts) (hmax : row.maxAttempts = job.maxAttempts) :
    left (fin.write row) ≤ left row := by
  cases fin with
  | markCompleted => exact Nat.zero_le _
  | markFailed => exact Nat.zero_le _
  | requeue =>
    have hlt : job.attempts < job.maxAttempts := hfin rfl
    simp only [left, Queue.Finish.write, AnalysisJob.requeued, hrun]
    omega

/-- The rows that `p` holds of lose one, and no other gains any. -/
theorem work_map_le {p : AnalysisJob → Prop} [DecidablePred p] {f : AnalysisJob → AnalysisJob}
    (h : ∀ row ∈ jobs, left (f row) + (if p row then 1 else 0) ≤ left row) :
    work (jobs.map f) + jobs.countP p ≤ work jobs := by
  induction jobs with
  | nil => simp [work]
  | cons row jobs ih =>
    have hrow := h row List.mem_cons_self
    have hrest := ih fun row hr => h row (List.mem_cons_of_mem _ hr)
    simp only [work, List.map_cons, List.countP_cons, decide_eq_true_eq] at hrest ⊢
    omega

end Work

/-! ### One round -/

/-- A poll, and what the executions after it meet. -/
structure Round where
  limit : ℤ
  lockedBy : String
  now : Time
  staleTimeoutSeconds : Option ℤ
  configured : ℤ
  environment : AnalysisJob → Environment
  deliver : AnalysisJob → SessionAnalysis → Except String Unit

def Round.poll (round : Round) (jobs : List AnalysisJob) : List AnalysisJob × List AnalysisJob :=
  acquireAvailableJobs jobs round.limit round.lockedBy round.now round.staleTimeoutSeconds
    round.configured fun _ => false

/-- `run_once`: the executions touch different rows of the table of jobs, and come here one after
another. -/
def runOnce [CharTable] (round : Round) (db : Database) : Database :=
  (round.poll db.jobs).1.foldl
    (fun db job => (execute (round.environment job) round.deliver job db).2)
    { db with jobs := (round.poll db.jobs).2 }

def Resting (jobs : List AnalysisJob) : Prop := ∀ row ∈ jobs, row.status ≠ .running

section Poll

variable {jobs : List AnalysisJob} {round : Round}

/-- Nothing is recovered when nothing runs. -/
theorem poll_of_resting (h : Resting jobs) (hlimit : 1 ≤ round.limit) :
    round.poll jobs = markAcquired jobs round.limit round.lockedBy round.now fun _ => false := by
  have hrecover : recoverStaleRunningJobs jobs round.now (staleSeconds round.staleTimeoutSeconds
      round.configured) (fun _ => false) = jobs := by
    rw [recoverStaleRunningJobs]
    conv_rhs => rw [← List.map_id jobs]
    exact List.map_congr_left fun row hrow => if_neg fun hstale => h row hrow hstale.1.1
  rw [Round.poll, acquireAvailableJobs, if_neg (by omega), hrecover]

theorem length_selectAvailable_le (hkeys : DistinctKeys jobs) (limit : ℤ) (now : Time) :
    (selectAvailable jobs limit now fun _ => false).length ≤
      jobs.countP fun row => row ∈ selectAvailable jobs limit now fun _ => false := by
  have hnodup : (selectAvailable jobs limit now fun _ => false).Nodup :=
    .of_map key (selectAvailable_distinctKeys hkeys limit now _)
  rw [List.countP_eq_length_filter]
  refine (List.subperm_of_subset hnodup fun row hrow => ?_).length_le
  exact List.mem_filter.mpr ⟨(mem_selectAvailable hrow).1, decide_eq_true hrow⟩

/-- What a poll hands out is taken from the work. -/
theorem work_poll (h : Resting jobs) (hkeys : DistinctKeys jobs) (hlimit : 1 ≤ round.limit) :
    work (round.poll jobs).2 + (round.poll jobs).1.length ≤ work jobs := by
  rw [poll_of_resting h hlimit, markAcquired, List.length_map]
  refine le_trans (Nat.add_le_add_left (length_selectAvailable_le hkeys _ _) _) ?_
  refine work_map_le fun row _ => ?_
  split
  · next hsel =>
    exact left_acquired (mem_selectAvailable hsel).2.1.1 _ _
  · exact le_rfl

/-- A poll that acquires nothing changes nothing. -/
theorem poll_of_nil (h : Resting jobs) (hlimit : 1 ≤ round.limit) (hnil : (round.poll jobs).1 = []) :
    (round.poll jobs).2 = jobs := by
  rw [poll_of_resting h hlimit] at hnil ⊢
  have hnone : selectAvailable jobs round.limit round.now (fun _ => false) = [] :=
    List.map_eq_nil_iff.mp hnil
  simp [markAcquired, hnone]

/-- A poll acquires something when there is something. -/
theorem poll_ne_nil (h : Resting jobs) (hlimit : 1 ≤ round.limit) {row : AnalysisJob} (hrow : row ∈ jobs)
    (hqueued : row.status = .queued) (hnow : row.availableAfter ≤ round.now) :
    (round.poll jobs).1 ≠ [] := by
  rw [poll_of_resting h hlimit, markAcquired, ne_eq, List.map_eq_nil_iff, selectAvailable,
    List.take_eq_nil_iff, not_or]
  refine ⟨by omega, fun hsorted => ?_⟩
  have hmem : row ∈ jobs.filter fun job => job.Available round.now ∧ false = false := by
    simp [hrow, AnalysisJob.Available, hqueued, hnow]
  rw [← List.mem_insertionSort (r := AnalysisJob.Precedes), hsorted] at hmem
  cases hmem

/-- and only then. -/
theorem poll_eq_nil (h : Resting jobs) (hlimit : 1 ≤ round.limit)
    (hnone : ¬ ∃ row ∈ jobs, row.status = .queued) : (round.poll jobs).1 = [] := by
  rw [poll_of_resting h hlimit]
  refine List.map_eq_nil_iff.mpr (List.eq_nil_iff_forall_not_mem.mpr fun row hsel => ?_)
  obtain ⟨hrow, havailable, -⟩ := mem_selectAvailable hsel
  exact hnone ⟨row, hrow, havailable.1⟩

/-- The copies are of the rows. -/
def Known (copies jobs : List AnalysisJob) : Prop := ∀ copy ∈ copies, ∀ row ∈ jobs,
  row.id = copy.id → row.attempts = copy.attempts ∧ row.maxAttempts = copy.maxAttempts

theorem known_poll (h : Resting jobs) (hkeys : DistinctKeys jobs) (hlimit : 1 ≤ round.limit) :
    Known (round.poll jobs).1 (round.poll jobs).2 := by
  rw [poll_of_resting h hlimit]
  intro copy hcopy row hrow hid
  obtain ⟨row₁, hrow₁, rfl⟩ := List.mem_map.mp hcopy
  obtain ⟨row₂, hrow₂, rfl⟩ := List.mem_map.mp hrow
  have hsame : row₂ = row₁ := by
    refine List.inj_on_of_nodup_map hkeys hrow₂ (mem_selectAvailable hrow₁).1 ?_
    split at hid <;> exact hid
  rw [hsame, if_pos hrow₁]
  exact ⟨rfl, rfl⟩

theorem distinctKeys_poll (hkeys : DistinctKeys jobs) : DistinctKeys (round.poll jobs).2 :=
  distinctKeys_acquireAvailableJobs hkeys _

end Poll

section Executions

variable {job : AnalysisJob} {db after : Database}

theorem distinctKeys_oneCall (h : OneCall job db after) (hkeys : DistinctKeys db.jobs) :
    DistinctKeys after.jobs := by
  rcases h with hsame | ⟨fin, -, -, -, -, hjobs⟩
  · rwa [hsame]
  · rw [hjobs]
    exact (distinctKeys_modify (Queue.write_id fin)).mpr hkeys

theorem known_oneCall (h : OneCall job db after) {copies : List AnalysisJob}
    (hknown : Known copies db.jobs) : Known copies after.jobs := by
  rcases h with hsame | ⟨fin, -, -, -, -, hjobs⟩
  · rwa [hsame]
  · intro copy hcopy row hrow hid
    rw [hjobs] at hrow
    rcases mem_modify hrow with ⟨hrow, -⟩ | ⟨row₀, hrow₀, -, rfl⟩
    · exact hknown copy hcopy row hrow hid
    · rw [Queue.write_id] at hid
      have hrow₀ := hknown copy hcopy row₀ hrow₀ hid
      cases fin <;> exact hrow₀

/-- No call makes more work. -/
theorem work_oneCall (h : OneCall job db after) (hkeys : DistinctKeys db.jobs)
    (hknown : ∀ row ∈ db.jobs, row.id = job.id →
      row.attempts = job.attempts ∧ row.maxAttempts = job.maxAttempts) :
    work after.jobs ≤ work db.jobs := by
  rcases h with hsame | ⟨fin, row, hfin, hrow, hrun, hjobs⟩
  · rw [hsame]
  · rw [hjobs, Rows.modify]
    refine le_trans (Nat.le_add_right _ _) (work_map_le (p := fun _ => False) fun row' hrow' => ?_)
    rw [if_neg not_false, Nat.add_zero]
    split
    · next hid =>
      have hget : get db.jobs (key row') = some row' := get_of_mem hkeys hrow'
      rw [hid, hrow] at hget
      cases hget
      obtain ⟨hattempts, hmax⟩ := hknown row hrow' hid
      exact left_write hfin hrun hattempts hmax
    · exact le_rfl

variable [CharTable]

theorem work_executions (round : Round) (copies : List AnalysisJob) (db : Database)
    (hkeys : DistinctKeys db.jobs) (hknown : Known copies db.jobs) :
    let after := copies.foldl
      (fun db job => (execute (round.environment job) round.deliver job db).2) db
    DistinctKeys after.jobs ∧ work after.jobs ≤ work db.jobs := by
  induction copies generalizing db with
  | nil => exact ⟨hkeys, le_rfl⟩
  | cons job copies ih =>
    have hone : OneCall job db (execute (round.environment job) round.deliver job db).2 :=
      oneCall_execute
    obtain ⟨hlast, hle⟩ := ih _ (distinctKeys_oneCall hone hkeys)
      (known_oneCall hone fun copy hcopy => hknown copy (List.mem_cons_of_mem _ hcopy))
    exact ⟨hlast, hle.trans (work_oneCall hone hkeys (hknown job List.mem_cons_self))⟩

/-- The step lemma. -/
theorem work_runOnce {round : Round} (h : Resting db.jobs) (hkeys : DistinctKeys db.jobs)
    (hlimit : 1 ≤ round.limit) :
    DistinctKeys (runOnce round db).jobs ∧
      work (runOnce round db).jobs + (round.poll db.jobs).1.length ≤ work db.jobs ∧
      ((round.poll db.jobs).1 = [] → (runOnce round db).jobs = db.jobs) := by
  have hpoll := work_poll h hkeys hlimit
  obtain ⟨hlast, hle⟩ := work_executions round (round.poll db.jobs).1
    { db with jobs := (round.poll db.jobs).2 } (distinctKeys_poll hkeys) (known_poll h hkeys hlimit)
  refine ⟨hlast, (Nat.add_le_add_right hle _).trans hpoll, fun hnil => ?_⟩
  rw [runOnce, hnil]
  exact poll_of_nil h hlimit hnil

end Executions

/-! ### The queue runs empty -/

/-- Round after round; between them the other tables may change. -/
structure Working [CharTable] (dbs : ℕ → Database) (rounds : ℕ → Round) : Prop where
  keys : DistinctKeys (dbs 0).jobs
  next : ∀ n, (dbs (n + 1)).jobs = (runOnce (rounds n) (dbs n)).jobs
  resting : ∀ n, Resting (dbs n).jobs
  limit : ∀ n, 1 ≤ (rounds n).limit
  time : ∀ t n, ∃ m, n ≤ m ∧ t ≤ (rounds m).now

section Working

variable [CharTable] {dbs : ℕ → Database} {rounds : ℕ → Round} (h : Working dbs rounds)
include h

theorem Working.distinctKeys (n : ℕ) : DistinctKeys (dbs n).jobs := by
  induction n with
  | zero => exact h.keys
  | succ n ih =>
    rw [h.next]
    exact (work_runOnce (h.resting n) ih (h.limit n)).1

theorem Working.work_next (n : ℕ) : work (dbs (n + 1)).jobs +
    ((rounds n).poll (dbs n).jobs).1.length ≤ work (dbs n).jobs := by
  rw [h.next]
  exact (work_runOnce (h.resting n) (h.distinctKeys n) (h.limit n)).2.1

theorem Working.idle {n : ℕ} (hnil : ((rounds n).poll (dbs n).jobs).1 = []) :
    (dbs (n + 1)).jobs = (dbs n).jobs := by
  rw [h.next]
  exact (work_runOnce (h.resting n) (h.distinctKeys n) (h.limit n)).2.2 hnil

/-- A job that waits is not passed over for ever. -/
theorem Working.acquires {n : ℕ} (hwaits : ∃ row ∈ (dbs n).jobs, row.status = .queued) :
    ∃ m, n ≤ m ∧ ((rounds m).poll (dbs m).jobs).1 ≠ [] := by
  obtain ⟨row, hrow, hqueued⟩ := hwaits
  by_contra hnone
  have hsame : ∀ m, n ≤ m → (dbs m).jobs = (dbs n).jobs := fun m hm => by
    induction hm with
    | refl => rfl
    | step hm ih =>
      have hnil := not_not.mp (not_and.mp (not_exists.mp hnone _) hm)
      exact (h.idle hnil).trans ih
  obtain ⟨m, hm, hnow⟩ := h.time row.availableAfter n
  exact hnone ⟨m, hm, poll_ne_nil (h.resting m) (h.limit m) (hsame m hm ▸ hrow) hqueued hnow⟩

theorem Working.executed_le (n : ℕ) : (∑ i ∈ Finset.range n,
    ((rounds i).poll (dbs i).jobs).1.length) + work (dbs n).jobs ≤ work (dbs 0).jobs := by
  induction n with
  | zero => simp
  | succ n ih =>
    have hnext := h.work_next n
    rw [Finset.sum_range_succ]
    omega

end Working

/-- From some round on no job is queued or running, and until then no more executions have been
started than attempts were left. -/
theorem drains [CharTable] {dbs : ℕ → Database} {rounds : ℕ → Round} (h : Working dbs rounds) :
    (∃ N, ∀ n, N ≤ n → ∀ row ∈ (dbs n).jobs, row.status ≠ .queued ∧ row.status ≠ .running) ∧
      ∀ n, ∑ i ∈ Finset.range n, ((rounds i).poll (dbs i).jobs).1.length ≤ work (dbs 0).jobs := by
  refine ⟨?_, fun n => (Nat.le_add_right _ _).trans (h.executed_le n)⟩
  obtain ⟨N, -, hempty⟩ := Runs.exists_of_progress
    (P := fun n => ¬ ∃ row ∈ (dbs n).jobs, row.status = .queued) (fun n => work (dbs n).jobs)
    (fun n => (Nat.le_add_right _ _).trans (h.work_next n)) (fun n hwaits => by
      obtain ⟨m, hm, hne⟩ := h.acquires (not_not.mp hwaits)
      have hnext := h.work_next m
      have hpos := List.length_pos_of_ne_nil hne
      exact ⟨m, hm, by omega⟩) 0
  refine ⟨N, fun n hn => ?_⟩
  have hsame : (dbs n).jobs = (dbs N).jobs := by
    induction hn with
    | refl => rfl
    | step _ ih =>
      rw [← ih]
      exact h.idle (poll_eq_nil (h.resting _) (h.limit _) (by rwa [ih]))
  intro row hrow
  exact ⟨fun hqueued => hempty ⟨row, hsame ▸ hrow, hqueued⟩, h.resting n row hrow⟩

/-! ### Example -/

section Example

local instance table : CharTable := ⟨Char.isAlphanum⟩

/-- A poll every hundred seconds, while the provider cannot be reached. -/
def rounds (n : ℕ) : Round :=
  ⟨1, "worker-a", seconds (100 * n), some 180, 60, fun _ => Settlement.unreachable, noDelivery⟩

/-- One job that may be tried three times. -/
def dbs : ℕ → Database
  | 0 => { Settlement.database with jobs := [newJob 1 7 "mock" "mock-v1" 3 .auto none 0] }
  | n + 1 => runOnce (rounds n) (dbs n)

theorem status_of_map {jobs : List AnalysisJob} {status : AnalysisJobStatus}
    (h : jobs.map AnalysisJob.status = [status]) : ∀ row ∈ jobs, row.status = status :=
  fun _ hrow => List.mem_singleton.mp (h ▸ List.mem_map_of_mem hrow)

/-- After the third attempt the job has failed for good. -/
theorem failed_dbs (n : ℕ) :
    (dbs (n + 3)).jobs.map AnalysisJob.status = [.failed] ∧ DistinctKeys (dbs (n + 3)).jobs := by
  induction n with
  | zero => exact ⟨rfl, List.nodup_singleton _⟩
  | succ n ih =>
    have hfailed := status_of_map ih.1
    have hresting : Resting (dbs (n + 3)).jobs := fun row hrow => by simp [hfailed row hrow]
    have hnone : ¬ ∃ row ∈ (dbs (n + 3)).jobs, row.status = .queued := by
      rintro ⟨row, hrow, hqueued⟩
      simp [hfailed row hrow] at hqueued
    have hnil : ((rounds (n + 3)).poll (dbs (n + 3)).jobs).1 = [] :=
      poll_eq_nil hresting le_rfl hnone
    have hsame : (dbs (n + 4)).jobs = (dbs (n + 3)).jobs :=
      (work_runOnce hresting ih.2 le_rfl).2.2 hnil
    rwa [hsame]

theorem resting_dbs : ∀ n, Resting (dbs n).jobs
  | 0 | 1 | 2 => fun row hrow => by
    have hqueued : row.status = .queued := status_of_map rfl row hrow
    simp [hqueued]
  | n + 3 => fun row hrow => by simp [status_of_map (failed_dbs n).1 row hrow]

theorem late (t : ℤ) (n : ℕ) : t ≤ seconds (100 * (max n t.toNat : ℕ)) := by
  simp only [seconds]
  omega

theorem drains_dbs :
    (∃ N, ∀ n, N ≤ n → ∀ row ∈ (dbs n).jobs, row.status ≠ .queued ∧ row.status ≠ .running) ∧
      ∀ n, ∑ i ∈ Finset.range n, ((rounds i).poll (dbs i).jobs).1.length ≤ 3 :=
  drains
    { keys := List.nodup_singleton _
      next := fun _ => rfl
      resting := resting_dbs
      limit := fun _ => le_rfl
      time := fun t n => ⟨max n t.toNat, le_max_left _ _, late t n⟩ }

end Example

end LiberNovus.Runtime.Drain

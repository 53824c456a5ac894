import LiberNovus.Integrity.Runs
import LiberNovus.Memory.Execution

/-! The memory of a dream over whole runs of the bot. A worker holds copies of the jobs that
were handed out to it, and may execute any of them at any time and more than once; an
endpoint adds jobs without a dream, and the cleanup script may be called in between.

Proved: in every run each dream has one job, and it has one memory when that job is completed and
none before. -/

namespace LiberNovus.Memory

open Rows Runs UnitOfWork Session Dialogue Analysis Analysis.Pipeline LiberNovus.Runtime Integrity
open ThreadHistory (alone)

/-! ### The system -/

/-- The tables, and the copies of the jobs that workers hold. -/
structure State where
  db : Database
  handed : List AnalysisJob

def State.empty : State := ⟨Database.empty, []⟩

/-- A new job has a new identifier, and what is executed was handed out. -/
def State.Admits (s : State) : Integrity.Event → Prop
  | .operation (.message _ _ _ draws _) => get s.db.jobs draws.jobId = none
  | .operation (.execute _ _ job) => job ∈ s.handed
  | .analyzeAsync _ id _ _ => get s.db.jobs id = none
  | _ => True

instance (s : State) : (e : Integrity.Event) → Decidable (s.Admits e)
  | .operation (.message ..) | .analyzeAsync .. => inferInstanceAs (Decidable (_ = none))
  | .operation (.execute _ _ job) => inferInstanceAs (Decidable (job ∈ s.handed))
  | .operation (.acquire ..) | .operation (.buildSummary ..) | .operation (.analyse ..)
  | .cleanup .. => isTrue trivial

/-- The copies that a poll hands out. -/
def State.handOut (s : State) : Integrity.Event → List AnalysisJob
  | .operation (.acquire limit lockedBy now stale configured) =>
    (acquireAvailableJobs s.db.jobs limit lockedBy now stale configured fun _ => false).1
  | _ => []

def step [CharTable] (settings : Settings) (s : State) (e : Integrity.Event) : Option State :=
  if s.Admits e then
    (Integrity.step settings s.db e).map fun after => ⟨after, s.handed ++ s.handOut e⟩
  else none

def dreamJobs (jobs : List AnalysisJob) (dreamId : ℕ) : List AnalysisJob :=
  jobs.filter fun job => job.dreamId = some dreamId

def dreamMemories (memories : List DreamMemory) (dreamId : ℕ) : List DreamMemory :=
  memories.filter fun memory => memory.dreamId = dreamId

/-- The memory that the job has written, if it is completed. -/
def Written (db : Database) (dream : Dream) (job : AnalysisJob) : Prop :=
  if job.status = .completed then
    ∃ memory, dreamMemories db.memories dream.id = [memory] ∧ memory.sessionId = dream.sessionId ∧
      memory.userId = dream.userId ∧ memory.analysisJobId = some job.id
  else dreamMemories db.memories dream.id = []

/-- The dream has one job in its session, and a memory when that is completed. -/
def Remembered (db : Database) (dream : Dream) : Prop :=
  ∃ job, dreamJobs db.jobs dream.id = [job] ∧ job.sessionId = dream.sessionId ∧ Written db dream job

/-! ### What the operations do to the jobs -/

/-- The identifier, the session and the dream of a job never change. -/
def SameWork (a b : AnalysisJob) : Prop :=
  b.id = a.id ∧ b.sessionId = a.sessionId ∧ b.dreamId = a.dreamId

theorem SameWork.trans {a b c : AnalysisJob} (h : SameWork a b) (h' : SameWork b c) : SameWork a c :=
  ⟨h'.1.trans h.1, h'.2.1.trans h.2.1, h'.2.2.trans h.2.2⟩

/-- The rewriting of a row keeps its work, and neither completes nor reopens it. -/
def Keeping (f : AnalysisJob → AnalysisJob) (jobs : List AnalysisJob) : Prop :=
  ∀ row ∈ jobs, SameWork row (f row) ∧ ((f row).status = .completed ↔ row.status = .completed)

section Jobs

variable {db after : Database} {dream : Dream} {jobs : List AnalysisJob} {f : AnalysisJob → AnalysisJob}

theorem dreamJobs_map (hf : ∀ row ∈ jobs, (f row).dreamId = row.dreamId) (dreamId : ℕ) :
    dreamJobs (jobs.map f) dreamId = (dreamJobs jobs dreamId).map f := by
  rw [dreamJobs, List.filter_map, dreamJobs]
  refine congrArg (List.map f) (List.filter_congr fun row hrow => ?_)
  simp [hf row hrow]

theorem mem_dreamJobs {dreamId : ℕ} {job : AnalysisJob} :
    job ∈ dreamJobs jobs dreamId ↔ job ∈ jobs ∧ job.dreamId = some dreamId := by
  simp [dreamJobs]

theorem Remembered.rewrite (h : Remembered db dream) (hf : Keeping f db.jobs)
    (hjobs : after.jobs = db.jobs.map f) (hmemories : after.memories = db.memories) :
    Remembered after dream := by
  obtain ⟨job, hjob, hsession, hwritten⟩ := h
  have hmem : job ∈ db.jobs := (mem_dreamJobs.mp (hjob ▸ List.mem_singleton_self job)).1
  obtain ⟨⟨hid, hs, -⟩, hstatus⟩ := hf job hmem
  refine ⟨f job, ?_, hs.trans hsession, ?_⟩
  · rw [hjobs, dreamJobs_map fun row hrow => (hf row hrow).1.2.2, hjob]
    rfl
  · simpa only [Written, hmemories, hid, hstatus] using hwritten

theorem Remembered.same (h : Remembered db dream) (hjobs : after.jobs = db.jobs)
    (hmemories : after.memories = db.memories) : Remembered after dream := by
  simpa only [Remembered, Written, hjobs, hmemories] using h

/-- A new job without a dream, or for another one. -/
theorem Remembered.append (h : Remembered db dream) {new : AnalysisJob}
    (hjobs : after.jobs = db.jobs ++ [new]) (hmemories : after.memories = db.memories)
    (hne : new.dreamId ≠ some dream.id) : Remembered after dream := by
  obtain ⟨job, hjob, hsession, hwritten⟩ := h
  refine ⟨job, ?_, hsession, by rwa [Written, hmemories]⟩
  rw [hjobs, dreamJobs, List.filter_append, ← dreamJobs, hjob]
  simp [hne]

theorem keeping_recover (now : Time) (timeout : ℤ) (jobs : List AnalysisJob) :
    Keeping (fun job => if job.Stale (now - seconds timeout) ∧ false = false then
      job.recovered now timeout else job) jobs := by
  intro row _
  dsimp only
  split
  · next hstale => exact ⟨⟨rfl, rfl, rfl⟩, by simp [AnalysisJob.recovered, hstale.1.1]⟩
  · exact ⟨⟨rfl, rfl, rfl⟩, Iff.rfl⟩

theorem keeping_acquire {limit : ℤ} {lockedBy : String} {now : Time} {jobs : List AnalysisJob} :
    Keeping (fun job => if job ∈ selectAvailable jobs limit now (fun _ => false) then
      job.acquired lockedBy now else job) jobs := by
  intro row _
  dsimp only
  split
  · next hsel =>
    have hqueued : row.status = .queued := (mem_selectAvailable hsel).2.1.1
    exact ⟨⟨rfl, rfl, rfl⟩, by simp [AnalysisJob.acquired, hqueued]⟩
  · exact ⟨⟨rfl, rfl, rfl⟩, Iff.rfl⟩

/-! ### Executions -/

/-- A row of the table is that of the only job of its dream. -/
theorem eq_of_dreamJobs {job row : AnalysisJob} {dreamId : ℕ} (h : dreamJobs jobs dreamId = [job])
    (hrow : row ∈ jobs) (hd : row.dreamId = some dreamId) : row = job :=
  List.mem_singleton.mp (h ▸ mem_dreamJobs.mpr ⟨hrow, hd⟩)

/-- The job is of another dream, or of none. -/
theorem Remembered.modifyOther (h : Remembered db dream) (hkeys : DistinctKeys db.jobs) {id : Uuid}
    {row : AnalysisJob} (hrow : get db.jobs id = some row) (hne : row.dreamId ≠ some dream.id)
    (hf : ∀ row, (f row).dreamId = row.dreamId) (hjobs : after.jobs = modify db.jobs id f)
    (hmemories : dreamMemories after.memories dream.id = dreamMemories db.memories dream.id) :
    Remembered after dream := by
  obtain ⟨job, hjob, hsession, hwritten⟩ := h
  have hother : job.id ≠ id := by
    rintro rfl
    have hmem := mem_dreamJobs.mp (hjob ▸ List.mem_singleton_self job)
    have hget : get db.jobs job.id = some job := get_of_mem hkeys hmem.1
    rw [hget] at hrow
    cases hrow
    exact hne hmem.2
  refine ⟨job, ?_, hsession, by simpa only [Written, hmemories] using hwritten⟩
  rw [hjobs, Rows.modify, dreamJobs_map (fun row _ => by split <;> simp [hf]), hjob]
  simp [hother]

theorem keeping_modify {id : Uuid} (hkeys : DistinctKeys db.jobs) {row : AnalysisJob}
    (hrow : get db.jobs id = some row) (hf : SameWork row (f row))
    (hstatus : (f row).status = .completed ↔ row.status = .completed) :
    Keeping (fun row => if key row = id then f row else row) db.jobs := by
  intro row' hrow'
  dsimp only
  split
  · next hid =>
    have hget : get db.jobs (key row') = some row' := get_of_mem hkeys hrow'
    rw [hid, hrow] at hget
    cases hget
    exact ⟨hf, hstatus⟩
  · exact ⟨⟨rfl, rfl, rfl⟩, Iff.rfl⟩

theorem find?_of_dreamMemories {memories : List DreamMemory} {dreamId : ℕ}
    (h : dreamMemories memories dreamId = []) :
    (memories.find? fun row => row.dreamId = dreamId) = none := by
  rw [List.find?_eq_none]
  intro memory hm hd
  have hmem : memory ∈ dreamMemories memories dreamId := List.mem_filter.mpr ⟨hm, hd⟩
  rw [h] at hmem
  cases hmem

variable {env : Environment} {job row : AnalysisJob} {dreamId : ℕ}

/-- The job of the dream is completed, and the memory is its first. -/
theorem Remembered.complete (h : Remembered db dream)
    (hrow : get db.jobs job.id = some row) (hrun : row.status = .running)
    (hwork : SameWork job row) (hd : job.dreamId = some dream.id) {userId : ℤ}
    (hu : userId = dream.userId) (memory : StructuredDreamMemoryV1) (now : Time)
    (hjobs : after.jobs = Rows.modify db.jobs job.id (AnalysisJob.completed none now))
    (hmemories : after.memories =
      upserted env dream.id job.sessionId userId memory (some job.id) db.memories) :
    Remembered after dream := by
  obtain ⟨job', hjob', hsession, hwritten⟩ := h
  obtain rfl : row = job' := eq_of_dreamJobs hjob' (mem_of_get hrow) (hwork.2.2.trans hd)
  have hnone : dreamMemories db.memories dream.id = [] := by
    rw [Written, if_neg (by simp [hrun])] at hwritten
    exact hwritten
  obtain ⟨new, hnew, hof, hin, howner, hby⟩ : ∃ new : DreamMemory,
      after.memories = db.memories ++ [new] ∧ new.dreamId = dream.id ∧
        new.sessionId = job.sessionId ∧ new.userId = userId ∧ new.analysisJobId = some job.id := by
    rw [hmemories, upserted, find?_of_dreamMemories hnone]
    exact ⟨_, rfl, rfl, rfl, rfl, rfl⟩
  refine ⟨row.completed none now, ?_, hsession, ?_⟩
  · rw [hjobs, Rows.modify, dreamJobs_map (fun row _ => by split <;> rfl), hjob']
    simp [hwork.1]
  · have hdone : (row.completed none now).status = .completed := rfl
    rw [Written, if_pos hdone, hnew, dreamMemories, List.filter_append, ← dreamMemories, hnone]
    refine ⟨new, by simp [hof], ?_, howner.trans hu, ?_⟩
    · rw [hin, ← hsession, hwork.2.1]
    · rw [hby, completed_id, hwork.1]

/-- An execution of a copy of the job of a dream. -/
theorem remembered_ends (hkeys : DistinctKeys db.jobs) (howned : Journal.Owned db)
    (hrow : ∃ row ∈ db.jobs, SameWork job row) (hd : job.dreamId = some dreamId)
    (hends : Ends env job dreamId db after) (h : ∀ dream ∈ db.dreams, Remembered db dream) :
    ∀ dream ∈ after.dreams, Remembered after dream := by
  obtain ⟨row, hmem, hwork⟩ := hrow
  have hget : get db.jobs job.id = some row := by
    rw [← hwork.1]
    exact get_of_mem hkeys hmem
  cases hends with
  | rolledBack => exact h
  | unfinished fin hfin row' hrow' hrun =>
    cases hget.symm.trans hrow'
    intro dream hdream
    refine (h dream hdream).rewrite (keeping_modify hkeys hget ⟨?_, ?_, ?_⟩ ?_) rfl rfl
    · exact Queue.write_id fin row
    · cases fin <;> rfl
    · cases fin <;> rfl
    · rw [Queue.Finish.write_status, hrun]
      simpa using hfin
  | completed row' hrow' hrun session hsession found hfound memory =>
    cases hget.symm.trans hrow'
    obtain ⟨hid, hin⟩ : found.id = dreamId ∧ found.sessionId = job.sessionId := by
      simpa using List.find?_some hfound
    have hfoundmem : found ∈ db.dreams := List.mem_of_find?_eq_some hfound
    have howner : session.userId = found.userId := by
      have hdream := howned.dreams found hfoundmem
      rw [hin, Journal.sessionOwner, hsession] at hdream
      exact Option.some.inj hdream
    intro dream hdream
    by_cases he : dream.id = dreamId
    · obtain rfl : dream = found :=
        List.inj_on_of_nodup_map howned.dreamKeys hdream hfoundmem (he.trans hid.symm)
      subst he
      exact (h dream hdream).complete hget hrun hwork hd howner memory env.finishedAt rfl rfl
    · have hnone : dreamMemories db.memories dreamId = [] := by
        obtain ⟨job', hjob', -, hwritten⟩ := h found hfoundmem
        rw [hid] at hjob'
        obtain rfl : row = job' := eq_of_dreamJobs hjob' hmem (hwork.2.2.trans hd)
        rw [Written, if_neg (by simp [hrun]), hid] at hwritten
        exact hwritten
      refine (h dream hdream).modifyOther (f := AnalysisJob.completed none env.finishedAt) hkeys hget
        ?_ (fun _ => rfl) rfl ?_
      · rw [hwork.2.2, hd]
        exact fun heq => he (Option.some.inj heq).symm
      · rw [upserted, find?_of_dreamMemories hnone, dreamMemories, List.filter_append]
        simp [dreamMemories, Ne.symm he]

end Jobs

/-! ### Steps -/

def JobsKept (jobs after : List AnalysisJob) : Prop :=
  ∀ row ∈ jobs, ∃ row' ∈ after, SameWork row row'

structure Tended (s : State) : Prop where
  sound : Sound s.db
  jobKeys : DistinctKeys s.db.jobs
  handed : ∀ copy ∈ s.handed, ∃ row ∈ s.db.jobs, SameWork copy row
  remembered : ∀ dream ∈ s.db.dreams, Remembered s.db dream

section Steps

variable {db after : Database} {jobs : List AnalysisJob} {f : AnalysisJob → AnalysisJob}

/-- What an operation does to the jobs and the memories. -/
structure Advances (db after : Database) : Prop where
  jobKeys : DistinctKeys after.jobs
  kept : JobsKept db.jobs after.jobs
  remembered : ∀ dream ∈ after.dreams, Remembered after dream

theorem distinctKeys_of_map (hkeys : DistinctKeys jobs) (hf : ∀ row ∈ jobs, SameWork row (f row)) :
    DistinctKeys (jobs.map f) := by
  have hsame : (jobs.map f).map key = jobs.map key := by
    rw [List.map_map]
    exact List.map_congr_left fun row hrow => (hf row hrow).1
  rwa [DistinctKeys, hsame]

theorem jobsKept_map (hf : ∀ row ∈ jobs, SameWork row (f row)) : JobsKept jobs (jobs.map f) :=
  fun row hrow => ⟨f row, List.mem_map_of_mem hrow, hf row hrow⟩

theorem JobsKept.refl (jobs : List AnalysisJob) : JobsKept jobs jobs :=
  fun row hrow => ⟨row, hrow, rfl, rfl, rfl⟩

/-- The jobs are rewritten, and there is nothing else new. -/
theorem advances_rewrite (hkeys : DistinctKeys db.jobs) (h : ∀ dream ∈ db.dreams, Remembered db dream)
    (hf : Keeping f db.jobs) (hjobs : after.jobs = db.jobs.map f)
    (hdreams : after.dreams = db.dreams) (hmemories : after.memories = db.memories) :
    Advances db after where
  jobKeys := hjobs ▸ distinctKeys_of_map hkeys fun row hrow => (hf row hrow).1
  kept := hjobs ▸ jobsKept_map fun row hrow => (hf row hrow).1
  remembered dream hdream := (h dream (hdreams ▸ hdream)).rewrite hf hjobs hmemories

theorem advances_same (hkeys : DistinctKeys db.jobs) (h : ∀ dream ∈ db.dreams, Remembered db dream)
    (hjobs : after.jobs = db.jobs) (hdreams : after.dreams = db.dreams)
    (hmemories : after.memories = db.memories) : Advances db after where
  jobKeys := hjobs ▸ hkeys
  kept := hjobs ▸ .refl _
  remembered dream hdream := (h dream (hdreams ▸ hdream)).same hjobs hmemories

theorem advances_acquire (hkeys : DistinctKeys db.jobs) (h : ∀ dream ∈ db.dreams, Remembered db dream)
    (limit : ℤ) (lockedBy : String) (now : Time) (stale : Option ℤ) (configured : ℤ) :
    Advances db { db with
      jobs := (acquireAvailableJobs db.jobs limit lockedBy now stale configured fun _ => false).2 } ∧
    ∀ copy ∈ (acquireAvailableJobs db.jobs limit lockedBy now stale configured fun _ => false).1,
      ∃ row ∈ (acquireAvailableJobs db.jobs limit lockedBy now stale configured fun _ => false).2,
        SameWork copy row := by
  unfold acquireAvailableJobs
  split
  · exact ⟨advances_same hkeys h rfl rfl rfl, by simp⟩
  · have hrecover : Advances db { db with jobs := (recoverStaleRunningJobs db.jobs now
        (staleSeconds stale configured) fun _ => false) } :=
      advances_rewrite hkeys h (keeping_recover now (staleSeconds stale configured) db.jobs) rfl rfl rfl
    have hacquire : Advances { db with jobs := (recoverStaleRunningJobs db.jobs now
        (staleSeconds stale configured) fun _ => false) }
      { db with jobs := (markAcquired (recoverStaleRunningJobs db.jobs now
        (staleSeconds stale configured) fun _ => false) limit lockedBy now fun _ => false).2 } :=
      advances_rewrite hrecover.jobKeys hrecover.remembered keeping_acquire rfl rfl rfl
    refine ⟨⟨hacquire.jobKeys, fun row hrow => ?_, hacquire.remembered⟩, fun copy hcopy => ?_⟩
    · obtain ⟨row₁, hrow₁, hwork⟩ := hrecover.kept row hrow
      obtain ⟨row₂, hrow₂, hwork'⟩ := hacquire.kept row₁ hrow₁
      exact ⟨row₂, hrow₂, hwork.trans hwork'⟩
    · obtain ⟨row, hrow, rfl⟩ := List.mem_map.mp hcopy
      obtain ⟨row₂, hrow₂, hwork⟩ := hacquire.kept row (mem_selectAvailable hrow).1
      exact ⟨row₂, hrow₂, hwork⟩

/-- The dreams and memories are the same, and of the jobs at most the one of this number has been
rewritten. -/
def OneJob (id : Uuid) (db after : Database) : Prop :=
  after.dreams = db.dreams ∧ after.memories = db.memories ∧
    ∃ f : AnalysisJob → AnalysisJob, (∀ row, SameWork row (f row)) ∧
      after.jobs = Rows.modify db.jobs id f

theorem OneJob.refl (id : Uuid) (db : Database) : OneJob id db db :=
  ⟨rfl, rfl, fun row => row, fun _ => ⟨rfl, rfl, rfl⟩, by simp [Rows.modify]⟩

section Executions

variable {env : Environment} {deliver : AnalysisJob → SessionAnalysis → Except String Unit}
  {job : AnalysisJob}

theorem ignores_oneJob (env : Environment) (id : Uuid) (db : Database) :
    Ignores (alone env) (OneJob id db) := ⟨fun _ _ h => h, fun _ _ h => h, fun _ _ h => h⟩

variable [CharTable]

theorem caches_oneJob (env : Environment) (id sessionId : Uuid) (db : Database) :
    Caches (alone env) sessionId (OneJob id db) := fun _ _ _ h _ => h

omit [CharTable] in
theorem oneJob_callQueue (id : Uuid) (fin : Queue.Finish) (db : Database) :
    Tx.Keeps (OneJob id db) False (callQueue id fin) := by
  refine .statement fun t _ t' h he => ?_
  obtain ⟨hdreams, hmemories, f, hf, hjobs⟩ := h
  split at he <;> cases he
  next hcall =>
    rw [Queue.Finish.call_eq, transition_ok] at hcall
    obtain ⟨row, -, -, hr⟩ := hcall
    obtain ⟨rfl, rfl⟩ := Prod.mk.inj hr
    have hwrite : ∀ row, SameWork row (fin.write row) := fun row =>
      ⟨Queue.write_id fin row, by cases fin <;> rfl, by cases fin <;> rfl⟩
    refine ⟨hdreams, hmemories, fun row => fin.write (f row), fun row => (hf row).trans (hwrite _), ?_⟩
    dsimp only
    rw [hjobs]
    exact modify_modify (fun row => (hf row).1) _ _

theorem oneJob_execute (hd : job.dreamId = none) :
    OneJob job.id db (execute (alone env) deliver job db).2 := by
  have hbinding : Tx.Keeps (OneJob job.id db) False (executeWithJobBinding (alone env) job) := by
    rw [executeWithJobBinding_analysis hd]
    exact .bind (keeps_assembleRuntimeAnalysis (ignores_oneJob env _ db) (caches_oneJob env _ _ db))
      fun _ => .bind (Environment.keeps_others (fun _ _ h => h) _) fun _ =>
        keeps_persistSessionAnalysisInThread (ignores_oneJob env _ db) _ _
  have hattempt : Tx.Keeps (OneJob job.id db) False (attemptJob (alone env) job) := by
    refine .bind (.attempt hbinding) fun r => ?_
    split
    · exact .pure _
    · exact .bind (oneJob_callQueue _ _ db) fun _ => .pure _
    · exact .fail _
  have hexecute : Tx.Keeps (OneJob job.id db) False (executeAnalysisJob (alone env) deliver job) := by
    refine .bind (.attempt hattempt) fun r => ?_
    split
    · exact oneJob_callQueue _ _ db
    · exact .pure _
    · refine .bind (oneJob_callQueue _ _ db) fun _ => ?_
      split
      · exact .bind (.lift _) fun _ => .pure _
      · exact .pure _
  exact (hexecute (.opened db) ⟨.refl _ db, .refl _ db, False.elim⟩).transaction

/-- An analysis without a job. -/
theorem same_analyse {sessionId : Uuid} {mode : AnalysisMode} :
    let after := (Tx.transaction (runSessionAnalysis (alone env) sessionId mode) db).2
    after.jobs = db.jobs ∧ after.dreams = db.dreams ∧ after.memories = db.memories := by
  set P : Database → Prop := fun t => t.jobs = db.jobs ∧ t.dreams = db.dreams ∧ t.memories = db.memories
  have hP : Ignores (alone env) P := ⟨fun _ _ h => h, fun _ _ h => h, fun _ _ h => h⟩
  have hkeeps : Tx.Keeps P False (runSessionAnalysis (alone env) sessionId mode) :=
    .bind (keeps_prepareSessionAnalysis hP (fun _ _ _ h _ => h) _) fun _ => .bind (.query _) fun _ =>
      keeps_persistSessionAnalysisInThread hP _ _
  exact (hkeeps (.opened db) ⟨⟨rfl, rfl, rfl⟩, ⟨rfl, rfl, rfl⟩, False.elim⟩).transaction

end Executions

/-- A job that no dream has. -/
theorem advances_append (hkeys : DistinctKeys db.jobs) (h : ∀ dream ∈ db.dreams, Remembered db dream)
    {new : AnalysisJob} (hnew : get db.jobs new.id = none) (hjobs : after.jobs = db.jobs ++ [new])
    (hdreams : after.dreams = db.dreams) (hmemories : after.memories = db.memories)
    (hd : new.dreamId = none) : Advances db after where
  jobKeys := hjobs ▸ distinctKeys_append_singleton hkeys hnew
  kept row hrow := ⟨row, hjobs ▸ List.mem_append_left _ hrow, rfl, rfl, rfl⟩
  remembered dream hdream := (h dream (hdreams ▸ hdream)).append hjobs hmemories (by simp [hd])

/-- A new dream with its job. -/
theorem advances_dream (hintegral : schema.Integral db) (hkeys : DistinctKeys db.jobs)
    (h : ∀ dream ∈ db.dreams, Remembered db dream) {dream : Dream} {job : AnalysisJob}
    (hdreamId : get db.dreams dream.id = none) (hjobId : get db.jobs job.id = none)
    (hdreams : after.dreams = db.dreams ++ [dream]) (hjobs : after.jobs = db.jobs ++ [job])
    (hmemories : after.memories = db.memories) (hd : job.dreamId = some dream.id)
    (hsession : job.sessionId = dream.sessionId) (hstatus : job.status = .queued) :
    Advances db after where
  jobKeys := hjobs ▸ distinctKeys_append_singleton hkeys hjobId
  kept row hrow := ⟨row, hjobs ▸ List.mem_append_left _ hrow, rfl, rfl, rfl⟩
  remembered := by
    -- nothing refers to a dream that is not there
    have hnone : dream.id ∉ Parent.dreams.keys db := get_eq_none.mp hdreamId
    have hnojob : dreamJobs db.jobs dream.id = [] := by
      refine List.filter_eq_nil_iff.mpr fun row hrow hrowdream => hnone (hintegral .jobDream _ ?_)
      exact List.mem_filterMap.mpr ⟨row, hrow, of_decide_eq_true hrowdream⟩
    have hnomemory : dreamMemories db.memories dream.id = [] := by
      refine List.filter_eq_nil_iff.mpr fun row hrow hrowdream => hnone (hintegral .memoryDream _ ?_)
      exact List.mem_map.mpr ⟨row, hrow, of_decide_eq_true hrowdream⟩
    intro other hother
    rw [hdreams] at hother
    rcases List.mem_append.mp hother with hother | hother
    · refine (h other hother).append hjobs hmemories ?_
      rw [hd]
      intro he
      exact hnone (Option.some.inj he ▸ List.mem_map_of_mem hother)
    · obtain rfl := List.mem_singleton.mp hother
      refine ⟨job, ?_, hsession, ?_⟩
      · rw [hjobs, dreamJobs, List.filter_append, ← dreamJobs, hnojob]
        simp [hd]
      · rw [Written, if_neg (by simp [hstatus]), hmemories]
        exact hnomemory

variable {settings : Settings} {telegramId : ℤ} {text : String} {evaluation : PolicyEvaluation}
  {draws : Draws} {dialogue : Except String DialogueTurn} {result : IngressResult}

theorem advances_message (hsound : Sound db) (hkeys : DistinctKeys db.jobs)
    (h : ∀ dream ∈ db.dreams, Remembered db dream) (hdreamId : get db.dreams draws.dreamId = none)
    (hjobId : get db.jobs draws.jobId = none)
    (hok : processIncomingMessage telegramId text evaluation draws settings db dialogue =
      .ok (result, after)) : Advances db after := by
  have hmemories := (intake_of_message hok).memories
  by_cases hr : evaluation.decision.route = .newDream
  · unfold processIncomingMessage at hok
    simp only [hr] at hok
    cases dialogue with
    | error => cases hok
    | ok turn =>
      cases hok
      simp only [takeIn, hr, if_true] at hmemories ⊢
      exact advances_dream hsound.integral hkeys h hdreamId hjobId rfl rfl hmemories rfl rfl rfl
  · cases (outcome_of_ok hok).1 with
    | noop _ _ _ _ hdreams hjobs => exact advances_same hkeys h hjobs hdreams hmemories
    | talk _ _ _ _ hdreams hjobs => exact advances_same hkeys h hjobs hdreams hmemories
    | dream hr' => exact absurd hr' hr

end Steps

/-! ### Runs -/

section Runs

variable [CharTable] {settings : Settings} {s t : State} {e : Integrity.Event}

omit [CharTable] in
theorem sameWork_write (fin : Queue.Finish) (row : AnalysisJob) : SameWork row (fin.write row) :=
  ⟨Queue.write_id fin row, by cases fin <;> rfl, by cases fin <;> rfl⟩

omit [CharTable] in
/-- At most the row of the job is rewritten. -/
theorem jobs_of_ends {env : Environment} {job : AnalysisJob} {dreamId : ℕ} {db after : Database}
    (hends : Ends env job dreamId db after) : ∃ f : AnalysisJob → AnalysisJob,
      (∀ row, SameWork row (f row)) ∧ after.jobs = Rows.modify db.jobs job.id f := by
  cases hends with
  | rolledBack => exact ⟨fun row => row, fun _ => ⟨rfl, rfl, rfl⟩, by simp [Rows.modify]⟩
  | unfinished fin => exact ⟨_, sameWork_write fin, rfl⟩
  | completed => exact ⟨AnalysisJob.completed none env.finishedAt, fun _ => ⟨rfl, rfl, rfl⟩, rfl⟩

/-- An execution of a copy that was handed out. -/
theorem advances_execute {db : Database} (howned : Journal.Owned db) (hkeys : DistinctKeys db.jobs)
    (h : ∀ dream ∈ db.dreams, Remembered db dream) {env : Environment}
    {deliver : AnalysisJob → SessionAnalysis → Except String Unit} {job : AnalysisJob}
    (hcopy : ∃ row ∈ db.jobs, SameWork job row) :
    Advances db (execute (alone env) deliver job db).2 := by
  have hadvances : ∀ {f : AnalysisJob → AnalysisJob} {after : Database}, (∀ row, SameWork row (f row)) →
      after.jobs = Rows.modify db.jobs job.id f → (∀ dream ∈ after.dreams, Remembered after dream) →
      Advances db after := by
    intro f after hf hjobs hremembered
    have hwork : ∀ row ∈ db.jobs, SameWork row (if key row = job.id then f row else row) := by
      intro row _
      split
      · exact hf row
      · exact ⟨rfl, rfl, rfl⟩
    exact ⟨hjobs ▸ distinctKeys_of_map hkeys hwork, hjobs ▸ jobsKept_map hwork, hremembered⟩
  cases hd : job.dreamId with
  | none =>
    have hone : OneJob job.id db (execute (alone env) deliver job db).2 := oneJob_execute hd
    obtain ⟨hdreams, hmemories, f, hf, hjobs⟩ := hone
    refine hadvances hf hjobs fun dream hdream => ?_
    obtain ⟨row, hmem, hwork⟩ := hcopy
    have hget : get db.jobs job.id = some row := by
      rw [← hwork.1]
      exact get_of_mem hkeys hmem
    refine (h dream (hdreams ▸ hdream)).modifyOther hkeys hget ?_ (fun row => (hf row).2.2) hjobs ?_
    · rw [hwork.2.2, hd]
      simp
    · rw [hmemories]
  | some dreamId =>
    have hends : Ends (alone env) job dreamId db (execute (alone env) deliver job db).2 :=
      execute_ends deliver (fun _ _ => rfl) hd
    obtain ⟨f, hf, hjobs⟩ := jobs_of_ends hends
    exact hadvances hf hjobs (remembered_ends hkeys howned hcopy hd hends h)

/-- The tables behind an operation. -/
theorem advances_operation {db after : Database} {e : Journal.Event} (hsound : Sound db)
    (hkeys : DistinctKeys db.jobs) (h : ∀ dream ∈ db.dreams, Remembered db dream)
    (handed : List AnalysisJob) (hhanded : ∀ copy ∈ handed, ∃ row ∈ db.jobs, SameWork copy row)
    (hadmits : State.Admits ⟨db, handed⟩ (.operation e))
    (ht : Journal.step settings db e = some after) : Advances db after := by
  have hrefl : Advances db db := advances_same hkeys h rfl rfl rfl
  cases e with
  | message telegramId text evaluation draws dialogue =>
    simp only [Journal.step, Option.ite_none_right_eq_some] at ht
    obtain ⟨⟨-, hdreamId⟩, ht⟩ := ht
    split at ht <;> cases ht
    · next hok => exact advances_message hsound hkeys h hdreamId hadmits hok
    · exact hrefl
  | acquire limit lockedBy now stale configured =>
    cases ht
    exact (advances_acquire hkeys h limit lockedBy now stale configured).1
  | execute env deliver job =>
    simp only [Journal.step, Option.ite_none_right_eq_some, Option.some.injEq] at ht
    obtain ⟨-, rfl⟩ := ht
    exact advances_execute hsound.owned hkeys h (hhanded job hadmits)
  | buildSummary sessionId id createdAt =>
    simp only [Journal.step] at ht
    split at ht <;> cases ht
    · exact advances_same hkeys h rfl rfl rfl
    · exact hrefl
  | analyse env sessionId mode =>
    cases ht
    obtain ⟨hjobs, hdreams, hmemories⟩ := same_analyse
    exact advances_same hkeys h hjobs hdreams hmemories

theorem tended_step (h : Tended s) (ht : step settings s e = some t) : Tended t := by
  simp only [step, Option.ite_none_right_eq_some, Option.map_eq_some_iff] at ht
  obtain ⟨hadmits, after, ht, rfl⟩ := ht
  have hsound := sound_step h.sound ht
  have hadvances : Advances s.db after := by
    cases e with
    | operation e => exact advances_operation h.sound h.jobKeys h.remembered s.handed h.handed hadmits ht
    | analyzeAsync sessionId id mode now =>
      simp only [Integrity.step] at ht
      split at ht <;> cases ht
      · next hok =>
        obtain ⟨-, rfl⟩ := analyzeAsync_cases hok
        exact advances_append h.jobKeys h.remembered (by exact hadmits) rfl rfl rfl rfl
      · exact advances_same h.jobKeys h.remembered rfl rfl rfl
    | cleanup execute =>
      cases ht
      rw [h.sound.spared execute]
      exact advances_same h.jobKeys h.remembered rfl rfl rfl
  refine ⟨hsound, hadvances.jobKeys, fun copy hcopy => ?_, hadvances.remembered⟩
  rcases List.mem_append.mp hcopy with hold | hnew
  · obtain ⟨row, hrow, hwork⟩ := h.handed copy hold
    obtain ⟨row', hrow', hwork'⟩ := hadvances.kept row hrow
    exact ⟨row', hrow', hwork.trans hwork'⟩
  · -- only a poll hands out copies, of rows that it leaves in the table
    cases e with
    | operation e =>
      cases e with
      | acquire limit lockedBy now stale configured =>
        cases ht
        exact (advances_acquire h.jobKeys h.remembered limit lockedBy now stale configured).2 copy hnew
      | _ => cases hnew
    | _ => cases hnew

omit [CharTable] in
theorem tended_empty : Tended State.empty :=
  ⟨sound_empty, distinctKeys_nil, by simp [State.empty], by simp [State.empty, Database.empty]⟩

/-- In every run each dream has one job, and one memory when that job is completed and none
before. -/
theorem remembered_always (settings : Settings) (es : List Integrity.Event) :
    Always (step settings) (fun s => ∀ dream ∈ s.db.dreams, Remembered s.db dream) State.empty es := by
  have htended : Always (step settings) Tended State.empty es :=
    always_of_step (fun _ _ _ h ht => tended_step h ht) tended_empty es
  exact htended.mono fun _ h => h.remembered

end Runs

end LiberNovus.Memory

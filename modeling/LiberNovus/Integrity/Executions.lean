import LiberNovus.Analysis.ThreadHistory
import LiberNovus.Foundation.Triples
import LiberNovus.Integrity.Schema
import LiberNovus.Runtime.Executor

/-! The foreign keys in an execution that runs alone, function by function: what the tables have
to hold before a call, and what they hold of its result.

Proved: an execution of any copy of a job, and an analysis of any session, move the tables along
the growth that keeps all foreign keys, whatever the provider answers and whichever flush
fails. -/

namespace LiberNovus.Integrity

open Rows ForeignKeys UnitOfWork Session Analysis Analysis.Pipeline Memory LiberNovus.Runtime

instance : Std.Refl schema.Grows := ⟨.refl schema⟩

instance : IsTrans Database schema.Grows := ⟨fun _ _ _ => .trans⟩

section Keys

variable {db after : Database}

/-- A key that is there stays there. -/
theorem keys_of_grows (h : schema.Grows db after) (parent : Parent) :
    parent.keys db ⊆ parent.keys after := by
  cases parent
  · exact h.targets .dreamSession
  · exact h.targets .turnDream
  · exact h.targets .traceJob
  · exact h.targets .jobThread
  · exact h.targets .threadLastAnalysis

theorem inSession_of_get {sessionId : Uuid} {session : DreamSession}
    (h : get db.sessions sessionId = some session) : InSession sessionId db :=
  List.mem_map.mpr ⟨session, mem_of_get h, key_of_get h⟩

theorem InSession.grows {sessionId : Uuid} (hs : InSession sessionId db) (h : schema.Grows db after) :
    InSession sessionId after := keys_of_grows h .sessions hs

theorem HasThread.grows {threadId : Uuid} (ht : HasThread threadId db) (h : schema.Grows db after) :
    HasThread threadId after := keys_of_grows h .threads ht

end Keys

/-! ### Threads -/

section Threads

variable {env : Environment} {sessionId : Uuid} {reresolve : Bool}

theorem grows_modifyThreads {db : Database} {threadId : Uuid} {f : AnalysisThread → AnalysisThread}
    (hid : ∀ row, (f row).id = row.id) (hsession : ∀ row, (f row).sessionId = row.sessionId)
    (hlast : ∀ row, (f row).lastAnalysisId = row.lastAnalysisId ∨
      ∀ k ∈ (f row).lastAnalysisId, HasAnalysis k db) :
    schema.Grows db { db with threads := modify db.threads threadId f } := by
  refine grows_rewriteThreads (fun row => ?_) (fun row => ?_) fun row => ?_
  · split
    · exact hid row
    · rfl
  · split
    · exact hsession row
    · rfl
  · split
    · exact hlast row
    · exact .inl rfl

theorem triple_createThread : Triple schema.Grows (InSession sessionId)
    (createThread env sessionId reresolve) fun thread db => HasThread thread.id db := by
  refine Triple.seq (S := InSession sessionId) ?_ (.bind (.attempt (Q := fun _ db =>
    HasThread (newThread (env.threadId reresolve) sessionId env.startedAt).id db) ?_) fun r => ?_)
  · refine .statement fun db _ _ hs he => ?_
    cases he
    have hgrows : schema.Grows db { db with
        threads := db.threads.map fun thread =>
          if thread.ActiveIn sessionId then thread.idled else thread } := by
      refine grows_rewriteThreads (fun row => ?_) (fun row => ?_) fun row => .inl ?_ <;> split <;> rfl
    exact ⟨hgrows, hs.grows hgrows⟩
  · refine .flush fun db hs => ⟨grows_insertThread hs rfl, ?_⟩
    exact List.mem_map.mpr ⟨_, List.mem_append_right _ (List.mem_singleton_self _), rfl⟩
  · split
    · exact .pure fun _ h => h.2 _ rfl
    · exact .raise
    · exact .fail

/-- The session is there, and so is the thread, if one has been found. -/
def Found (sessionId : Uuid) (thread : Option AnalysisThread) (db : Database) : Prop :=
  InSession sessionId db ∧ ∀ found ∈ thread, HasThread found.id db

/-- The commands other than `CREATE_NEW`. -/
theorem grows_applyCommand {thread found : Option AnalysisThread} {command : TransitionCommand}
    {id : Uuid} {createdAt : Time} {db : Database} {threads : List AnalysisThread}
    (hne : command.commandType ≠ .createNew) (h : Found sessionId thread db)
    (happly : applyCommand sessionId id createdAt (thread, db.threads) command =
      .ok (found, threads)) :
    schema.Grows db { db with threads := threads } ∧
      Found sessionId found { db with threads := threads } := by
  unfold applyCommand at happly
  split at happly
  · obtain ⟨threadId, -, hget⟩ := Results.bind_eq_ok.mp happly
    split at hget
    · cases hget
    · next row hrow =>
      cases hget
      refine ⟨.refl _ _, h.1, ?_⟩
      rintro _ ⟨⟩
      exact List.mem_map_of_mem (mem_of_get hrow)
  · obtain ⟨threadId, -, hidle⟩ := Results.bind_eq_ok.mp happly
    cases hidle
    have hgrows : schema.Grows db { db with threads := markIdle db.threads threadId } :=
      grows_modifyThreads (fun _ => rfl) (fun _ => rfl) fun _ => .inl rfl
    exact ⟨hgrows, h.1.grows hgrows, fun row hrow => (h.2 row hrow).grows hgrows⟩
  · obtain ⟨threadId, -, hclose⟩ := Results.bind_eq_ok.mp happly
    cases hclose
    have hgrows : schema.Grows db { db with threads := closeThread db.threads threadId } :=
      grows_modifyThreads (fun _ => rfl) (fun _ => rfl) fun _ => .inl rfl
    exact ⟨hgrows, h.1.grows hgrows, fun row hrow => (h.2 row hrow).grows hgrows⟩
  · next hcreate => exact absurd hcreate hne

theorem triple_runCommand (thread : Option AnalysisThread) (command : TransitionCommand) :
    Triple schema.Grows (Found sessionId thread) (runCommand env sessionId reresolve thread command)
      (Found sessionId) := by
  unfold runCommand
  split
  · have hcreate : Triple schema.Grows (Found sessionId thread) (createThread env sessionId reresolve)
        fun created db => HasThread created.id db ∧ InSession sessionId db :=
      (triple_createThread.frame fun _ _ h hs => hs.grows h).mono (fun _ h => ⟨h.1, h.1⟩) fun _ _ h => h
    refine hcreate.bind fun created => .pure fun db h => ⟨h.2, ?_⟩
    rintro _ ⟨⟩
    exact h.1
  · next hne =>
    refine .statement fun db found db' h he => ?_
    split at he <;> cases he
    next happly => exact grows_applyCommand hne h happly

theorem triple_runCommands (commands : List TransitionCommand) (thread : Option AnalysisThread) :
    Triple schema.Grows (Found sessionId thread)
      (runCommands env sessionId reresolve commands thread) (Found sessionId) := by
  induction commands generalizing thread with
  | nil => exact .pure fun _ h => h
  | cons command commands ih => exact (triple_runCommand thread command).bind ih

theorem triple_applyTransitionTx (transition : NormalizedTransition) :
    Triple schema.Grows (InSession sessionId) (applyTransitionTx env sessionId transition reresolve)
      fun thread db => HasThread thread.id db := by
  have hcommands : Triple schema.Grows (InSession sessionId)
      (runCommands env sessionId reresolve transition.commands none) (Found sessionId) :=
    (triple_runCommands _ none).mono (fun _ hs => ⟨hs, by rintro _ ⟨⟩⟩) fun _ _ h => h
  refine hcommands.bind fun thread => ?_
  cases thread
  · exact .raise
  · exact .pure fun _ h => h.2 _ rfl

theorem triple_resolveRound (mode : AnalysisMode) :
    Triple schema.Grows (InSession sessionId) (resolveRound env sessionId mode reresolve)
      fun r db => HasThread r.1.id db := by
  refine .bind (Q := fun _ => InSession sessionId) (.query fun _ hs => hs) fun snapshot =>
    .bind (Q := fun _ => InSession sessionId) (.lift fun _ _ _ hs => hs) fun session =>
    .bind (Q := fun _ => InSession sessionId) (.query fun _ hs => hs) fun thread =>
    .bind (.nested (triple_applyTransitionTx _)) fun thread => .pure fun _ h => h

end Threads

/-! ### Analyses -/

section Analyses

variable {env : Environment} (hnobody : ∀ await db, env.committing await db = db) {sessionId : Uuid}
include hnobody

theorem triple_others (await : Await) {P : Database → Prop} :
    Triple schema.Grows P (env.others await) fun _ => P :=
  .interleave (hnobody await) fun _ h => h

theorem triple_generate (prompt promptVersion : String) (temperature : Option ℚ)
    {P : Database → Prop} :
    Triple schema.Grows P (env.generate prompt promptVersion temperature) fun _ => P :=
  .bind (Q := fun _ => P) (.lift fun _ _ _ h => h) fun _ =>
    .seq (triple_others hnobody .provider) (.lift fun _ _ _ h => h)

theorem triple_resolveThreadForAnalysis (mode : AnalysisMode) :
    Triple schema.Grows (InSession sessionId) (resolveThreadForAnalysis env sessionId mode)
      fun r db => HasThread r.1.id db := by
  refine .bind (.attempt (triple_resolveRound mode)) fun r => ?_
  split
  · exact .pure fun _ h => h.2 _ rfl
  · refine .seq (S := InSession sessionId) ?_ (triple_resolveRound mode)
    refine (triple_others hnobody .conflict).mono (fun db h => ?_) fun _ _ h => h
    obtain ⟨⟨db₀, hs, hgrows⟩, -⟩ := h
    exact hs.grows hgrows
  · exact .fail

variable [CharTable]

omit hnobody in
theorem triple_loadAnalysisInput : Triple schema.Grows (fun _ => True)
    (loadAnalysisInput env sessionId) fun context db => InSession context.session.id db := by
  refine .statement fun db context db' _ he => ?_
  split at he <;> cases he
  next summaries hload =>
    obtain ⟨hsession, -, hcached⟩ := loadAnalysisInput_ok hload
    have hid : context.session.id = sessionId := key_of_get hsession
    have hin : InSession sessionId db := inSession_of_get hsession
    have hgrows : schema.Grows db { db with summaries := summaries } := by
      refine grows_summaries fun row hrow => ?_
      rcases cachedSummary_ok hcached with ⟨-, rfl⟩ | ⟨-, rfl, hrowid, -⟩
      · exact .inl hrow
      · rcases List.mem_append.mp hrow with hrow | hrow
        · exact .inl hrow
        · rw [List.mem_singleton.mp hrow, hrowid]
          exact .inr hin
    exact ⟨hgrows, hid ▸ hin.grows hgrows⟩

/-- What a prepared analysis refers to is there. -/
def Prepared (prepared : SessionAnalysisPrepareResult) (db : Database) : Prop :=
  HasThread prepared.thread.id db ∧ InSession prepared.sessionId db

theorem triple_prepareSessionAnalysis (mode : AnalysisMode) :
    Triple schema.Grows (fun _ => True) (prepareSessionAnalysis env sessionId mode) Prepared := by
  refine triple_loadAnalysisInput.bind fun context => .bind (triple_generate hnobody _ _ _) fun raw =>
    .bind (Q := fun _ => InSession context.session.id) (.lift fun _ _ _ h => h) fun payload =>
    .bind (Q := fun _ => InSession context.session.id) (.lift fun _ _ _ h => h) fun validated =>
    .bind (((triple_resolveThreadForAnalysis hnobody mode).frame fun _ _ h hs => hs.grows h).mono
      (fun _ h => ⟨h, h⟩) fun _ _ h => h) fun r => .pure fun _ h => h

/-- What the row of an assembled analysis refers to is there. -/
def Assembled (analysis : SessionAnalysis) (thread : AnalysisThread) (db : Database) : Prop :=
  HasThread thread.id db ∧ InSession analysis.sessionId db

omit [CharTable] in
theorem triple_persist (thread : AnalysisThread) (analysis : SessionAnalysis) :
    Triple schema.Grows (Assembled analysis thread)
      (persistSessionAnalysisInThread env thread analysis)
      fun stored db => HasThread stored.threadId db := by
  set P : Database → Prop := fun db => Assembled analysis thread db ∧ analysis.threadId = thread.id
    with hP
  have hmono : ∀ {db after}, schema.Grows db after → P db → P after := fun hgrows h =>
    ⟨⟨h.1.1.grows hgrows, h.1.2.grows hgrows⟩, h.2⟩
  refine .seq (S := P) (.lift fun _ db hcheck h => ⟨h, ?_⟩) (.seq (S := P) ?_
    (.seq (triple_others hnobody .latest) (.seq
      (S := fun db => P db ∧ HasAnalysis analysis.id db) ?_ (.seq (S := P) ?_
        (.pure fun db h => ?_)))))
  · unfold checkTarget at hcheck
    split at hcheck
    · cases hcheck
    · next hid => exact not_not.mp hid
  · refine .statement fun db _ _ h he => ?_
    cases he
    have hgrows : schema.Grows db { db with
        analyses := db.analyses.map fun row =>
          if row.LatestOf thread.id then row.superseded else row } := by
      refine grows_rewriteAnalyses (fun row => ?_) (fun row => ?_) fun row => ?_ <;> split <;> rfl
    exact ⟨hgrows, hmono hgrows h⟩
  · refine .flush fun db h => ?_
    have hgrows : schema.Grows db { db with analyses := db.analyses ++ [analysis] } :=
      grows_insertAnalysis h.1.2 (h.2 ▸ h.1.1)
    refine ⟨hgrows, hmono hgrows h, ?_⟩
    exact List.mem_map.mpr ⟨_, List.mem_append_right _ (List.mem_singleton_self _), rfl⟩
  · refine .flush fun db h => ?_
    have hgrows : schema.Grows db { db with
        threads := modify db.threads thread.id (.persisted analysis.id env.persistedAt) } := by
      refine grows_modifyThreads (fun _ => rfl) (fun _ => rfl) fun _ => .inr ?_
      rintro _ ⟨⟩
      exact h.2
    exact ⟨hgrows, hmono hgrows h.1⟩
  · rw [h.2]
    exact h.1.1

theorem triple_runSessionAnalysis (mode : AnalysisMode) :
    Triple schema.Grows (fun _ => True) (runSessionAnalysis env sessionId mode)
      fun stored db => HasThread stored.threadId db :=
  (triple_prepareSessionAnalysis hnobody mode).bind fun prepared =>
    .bind (Q := fun row db => Assembled row prepared.thread db) (.query fun _ h => h) fun row =>
      triple_persist hnobody prepared.thread row

end Analyses

/-! ### Memories -/

section Memories

variable {env : Environment} (hnobody : ∀ await db, env.committing await db = db) {sessionId : Uuid}

theorem triple_require {α : Type} (read : Database → Option α) (missing : Exc)
    {P : Database → Prop} :
    Triple schema.Grows P (require read missing) fun row db => read db = some row ∧ P db := by
  refine .statement fun db row db' h he => ?_
  split at he <;> cases he
  exact ⟨.refl _ _, by assumption, h⟩

theorem triple_upsertDreamMemory {dreamId : ℕ} {userId : ℤ} {memory : StructuredDreamMemoryV1}
    {analysisJobId : Option Uuid} :
    Triple schema.Grows (fun db => HasDream dreamId db ∧ InSession sessionId db)
      (upsertDreamMemory env dreamId sessionId userId memory analysisJobId) fun _ _ => True := by
  refine .bind (Q := fun existing db => existing = db.memories.find? (fun row => row.dreamId = dreamId) ∧
    HasDream dreamId db ∧ InSession sessionId db) (.query fun _ h => ⟨rfl, h⟩) fun existing => ?_
  cases existing with
  | none =>
    refine .seq (S := fun _ => True) (.flush fun db h => ⟨grows_memories fun row hrow => ?_, trivial⟩)
      (.pure fun _ _ => trivial)
    rcases List.mem_append.mp hrow with hrow | hrow
    · exact .inl ⟨row, hrow, rfl, rfl⟩
    · rw [List.mem_singleton.mp hrow]
      exact .inr h.2
  | some existing =>
    refine .seq (S := fun _ => True) (.flush fun db h => ⟨grows_memories fun row hrow => ?_, trivial⟩)
      (.pure fun _ _ => trivial)
    have hmem : existing ∈ db.memories := List.mem_of_find?_eq_some h.1.symm
    obtain ⟨row₀, hrow₀, rfl⟩ := List.mem_map.mp hrow
    split
    · exact .inl ⟨existing, hmem, rfl, rfl⟩
    · exact .inl ⟨row₀, hrow₀, rfl, rfl⟩

include hnobody in
theorem triple_executeDreamMemoryJob (job : AnalysisJob) :
    Triple schema.Grows (fun _ => True) (executeDreamMemoryJob env job) fun _ _ => True := by
  set P : ℕ → Database → Prop := fun dreamId db => HasDream dreamId db ∧ InSession job.sessionId db
  have hextract : ∀ dreamId, Triple schema.Grows (P dreamId) (extract env job.sessionId dreamId)
      fun _ => P dreamId := fun dreamId =>
    (triple_require _ _).bind fun session => ((triple_require _ _).mono (fun _ h => h.2) fun _ _ h => h).bind
      fun dream => .bind ((triple_generate hnobody _ _ _).mono (fun _ h => h.2) fun _ _ h => h) fun raw =>
        .bind (Q := fun _ => P dreamId) (.lift fun _ _ _ h => h) fun payload =>
          .bind (Q := fun _ => P dreamId) (.lift fun _ _ _ h => h) fun memory => .lift fun _ _ _ h => h
  have henriched : ∀ dreamId, Triple schema.Grows (InSession job.sessionId)
      (enrichedMemory env job.sessionId dreamId) fun _ => P dreamId := fun dreamId => by
    refine (triple_require _ _).bind fun dream => .bind ((hextract dreamId).mono (fun db h => ?_)
      fun _ _ h => h) fun memory => .pure fun _ h => h
    have hdream := List.find?_some h.1
    simp only [decide_eq_true_eq] at hdream
    exact ⟨List.mem_map.mpr ⟨dream, List.mem_of_find?_eq_some h.1, hdream.1⟩, h.2⟩
  have hassemble : Triple schema.Grows (fun _ => True)
      (assembleDreamMemory env job.sessionId job.dreamId) fun r => P r.2.1 :=
    .bind (Q := fun _ _ => True) (.lift fun _ _ _ h => h) fun dreamId =>
      (triple_require _ _).bind fun session => .bind ((henriched dreamId).mono
        (fun _ h => inSession_of_get h.1) fun _ _ h => h) fun memory => .pure fun _ h => h
  exact hassemble.bind fun r => triple_upsertDreamMemory.bind fun _ => .pure fun _ h => h

end Memories

/-! ### Executions -/

section Executions

variable {env : Environment} (hnobody : ∀ await db, env.committing await db = db)
  {deliver : AnalysisJob → SessionAnalysis → Except String Unit} {job : AnalysisJob}

/-- The thread that a finishing call writes into the job is there. -/
def NamesThread (db : Database) : Queue.Finish → Prop
  | .markCompleted threadId _ => ∀ k ∈ threadId, HasThread k db
  | .markFailed .. | .requeue .. => True

theorem triple_callQueue (jobId : Uuid) (fin : Queue.Finish) :
    Triple schema.Grows (NamesThread · fin) (callQueue jobId fin) fun _ _ => True := by
  refine .statement fun db job db' h he => ⟨?_, trivial⟩
  rw [Queue.Finish.call_eq] at he
  split at he <;> cases he
  next hcall =>
    obtain ⟨row, -, -, hr⟩ := transition_ok.mp hcall
    obtain ⟨rfl, rfl⟩ := Prod.mk.inj hr
    refine grows_rewriteJobs (fun row => ?_) (fun row => ?_) (fun row => ?_) fun row => ?_
    · split
      · exact Queue.write_id fin row
      · rfl
    · split
      · cases fin <;> rfl
      · rfl
    · split
      · cases fin <;> rfl
      · rfl
    · split
      · cases fin with
        | markCompleted threadId now => exact .inr h
        | markFailed => exact .inl rfl
        | requeue => exact .inl rfl
      · exact .inl rfl

theorem namesThread_handleFailure (e : RunError) (db : Database) :
    NamesThread db (handleFailure env job e) := by
  unfold handleFailure
  split
  · unfold Queue.handleRetryableFailure
    split <;> trivial
  · trivial

variable [CharTable]
include hnobody

theorem triple_assembleRuntimeAnalysis : Triple schema.Grows (fun _ => True)
    (assembleRuntimeAnalysis env job) fun r db => Assembled r.1 r.2 db := by
  refine (triple_prepareSessionAnalysis hnobody job.mode).bind fun prepared =>
    .bind (Q := fun row db => Prepared prepared db ∧ ∃ analyses : List SessionAnalysis,
      row = buildSessionAnalysisRow analyses prepared env.analysisId env.startedAt)
      (.query fun _ h => ⟨h, _, rfl⟩) fun row => ?_
  refine .bind (Q := fun bound db => Assembled bound prepared.thread db) (.lift ?_) fun bound =>
    .pure fun _ h => h
  rintro bound db hbound ⟨hprepared, analyses, rfl⟩
  rw [bindJob_build] at hbound
  cases hbound
  exact hprepared

theorem triple_executeWithJobBinding : Triple schema.Grows (fun _ => True)
    (executeWithJobBinding env job) fun stored db => HasThread stored.threadId db := by
  unfold executeWithJobBinding
  split
  · exact .seq (triple_executeDreamMemoryJob hnobody job) .raise
  · exact (triple_assembleRuntimeAnalysis hnobody).bind fun r =>
      .seq (triple_others hnobody .store) (triple_persist hnobody r.2 r.1)

/-- The analysis that the `try` ends with is in a thread of the table. -/
def Attempted.Rooted (db : Database) : Attempted → Prop
  | .memoryOnly _ => True
  | .analysed analysis => HasThread analysis.threadId db

theorem triple_attemptJob : Triple schema.Grows (fun _ => True) (attemptJob env job)
    fun r db => Attempted.Rooted db r := by
  refine .bind (.attempt (triple_executeWithJobBinding hnobody)) fun r => ?_
  split
  · exact .pure fun _ h => h.2 _ rfl
  · refine .bind ((triple_callQueue _ _).mono (fun _ _ => ?_) fun _ _ h => h) fun _ =>
      .pure fun _ _ => trivial
    rintro _ ⟨⟩
  · exact .fail

theorem triple_executeAnalysisJob : Triple schema.Grows (fun _ => True)
    (executeAnalysisJob env deliver job) fun _ _ => True := by
  refine .bind (.attempt (triple_attemptJob hnobody)) fun r => ?_
  split
  · next e =>
    exact (triple_callQueue _ _).mono (fun db _ => namesThread_handleFailure e db) fun _ _ h => h
  · exact .pure fun _ _ => trivial
  · next analysis =>
    refine .bind (Q := fun _ _ => True) ((triple_callQueue _ _).mono (fun db h => ?_) fun _ _ h => h)
      fun completed => ?_
    · rintro _ ⟨⟩
      exact h.2 _ rfl
    · split
      · exact .seq (S := fun _ => True) (.lift fun _ _ _ _ => trivial) (.pure fun _ _ => trivial)
      · exact .pure fun _ _ => trivial

/-- An execution of a copy of a job, which may be any row. -/
theorem grows_execute (db : Database) : schema.Grows db (execute env deliver job db).2 :=
  (triple_executeAnalysisJob hnobody).transaction trivial

end Executions

end LiberNovus.Integrity

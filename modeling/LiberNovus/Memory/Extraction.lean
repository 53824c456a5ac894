import LiberNovus.Environment

/-! The job of a dream memory: the extraction of the structured memory by the provider,
and its upsert, whose flush has no savepoint around it. -/

namespace LiberNovus.Memory

open Rows Session UnitOfWork

def memoryVersion : String := "structured_dream_v1"

def memoryPromptVersion : String := "memory_v1"

def memoryTemperature : ℚ := 0

/-- The dream of that number in the session. -/
def findDream (dreams : List Dream) (dreamId : ℕ) (sessionId : Uuid) : Option Dream :=
  dreams.find? fun dream => dream.id = dreamId ∧ dream.sessionId = sessionId

def sessionMissing (sessionId : Uuid) : Exc :=
  .nonRetryable s!"Session {sessionId} not found"

def dreamMissing (dreamId : ℕ) (sessionId : Uuid) : Exc :=
  .nonRetryable s!"Dream {dreamId} not found for session {sessionId}"

/-- A row that has to be there. -/
def require {α : Type} (read : Database → Option α) (missing : Exc) : Run α :=
  Tx.statement fun db => match read db with
    | none => .error missing
    | some row => .ok (row, db)

def requireSession (sessionId : Uuid) : Run DreamSession :=
  require (fun db => get db.sessions sessionId) (sessionMissing sessionId)

def requireDream (sessionId : Uuid) (dreamId : ℕ) : Run Dream :=
  require (fun db => findDream db.dreams dreamId sessionId) (dreamMissing dreamId sessionId)

section Extraction

variable (env : Environment)

/-- `MemoryExtractor.extract`, with `prepare_memory_input`. -/
def extract (sessionId : Uuid) (dreamId : ℕ) : Run StructuredDreamMemoryV1 := do
  let session ← requireSession sessionId
  let dream ← requireDream sessionId dreamId
  let raw ← env.generate (env.buildMemoryPrompt session dream) memoryPromptVersion
    (some memoryTemperature)
  let payload ← Tx.lift ((env.parseResponse raw.rawText).mapError .nonRetryable)
  let memory ← Tx.lift ((env.validateMemory payload).mapError .other)
  Tx.lift ((sanitizeMemory env.lower memory).mapError .nonRetryable)

/-- The memory `enrich_dream_memory` stores: without details, the dream text is one. -/
def StructuredDreamMemoryV1.withDetails (memory : StructuredDreamMemoryV1) (dream : Dream) :
    StructuredDreamMemoryV1 :=
  if memory.dreamDetails = [] then
    { memory with dreamDetails := [String.ofList (dream.text.toList.take 500)] }
  else memory

/-- The first half of `enrich_dream_memory`. -/
def enrichedMemory (sessionId : Uuid) (dreamId : ℕ) : Run StructuredDreamMemoryV1 := do
  let dream ← requireDream sessionId dreamId
  let memory ← extract env sessionId dreamId
  pure (memory.withDetails dream)

def upsertDreamMemory (dreamId : ℕ) (sessionId : Uuid) (userId : ℤ)
    (memory : StructuredDreamMemoryV1) (analysisJobId : Option Uuid) : Run DreamMemory := do
  let existing ← Tx.query fun db => db.memories.find? fun row => row.dreamId = dreamId
  match existing with
  | none =>
    let row : DreamMemory :=
      { id := env.memoryId
        dreamId := dreamId
        sessionId := sessionId
        userId := userId
        memoryVersion := memoryVersion
        memoryJson := memory
        analysisJobId := analysisJobId
        createdAt := env.startedAt }
    env.flush .saveMemory fun db => { db with memories := db.memories ++ [row] }
    pure row
  | some existing =>
    let row : DreamMemory :=
      { existing with
        memoryJson := memory
        memoryVersion := memoryVersion
        analysisJobId := analysisJobId.or existing.analysisJobId }
    env.flush .saveMemory fun db => { db with
      memories := db.memories.map fun other => if other.id = existing.id then row else other }
    pure row

/-- `_execute_dream_memory_job` up to the upsert: the session, the dream and its memory. -/
def assembleDreamMemory (sessionId : Uuid) (dreamId : Option ℕ) :
    Run (DreamSession × ℕ × StructuredDreamMemoryV1) := do
  let dreamId ← Tx.lift (match dreamId with
    | none => .error (.nonRetryable "Dream memory job requires dream_id")
    | some dreamId => .ok dreamId)
  let session ← requireSession sessionId
  let memory ← enrichedMemory env sessionId dreamId
  pure (session, dreamId, memory)

def executeDreamMemoryJob (job : Runtime.AnalysisJob) : Run Unit := do
  let (session, dreamId, memory) ← assembleDreamMemory env job.sessionId job.dreamId
  let _ ← upsertDreamMemory env dreamId job.sessionId session.userId memory (some job.id)

end Extraction

/-! ### What the job keeps -/

section Frame

variable {env : Environment} {P : Database → Prop} {safe : Prop}

theorem keeps_require {α : Type} (read : Database → Option α) (missing : Exc) :
    Tx.Keeps P safe (require read missing) := by
  refine .statement fun _ _ _ h he => ?_
  split at he <;> cases he
  exact h

/-- A row that is there is read, and nothing else happens. -/
theorem require_ok {α : Type} {read : Database → Option α} {missing : Exc} {row : α}
    {s t : AsyncSession Database} (h : require read missing s = (.ok row, t)) :
    read s.tables = some row ∧ t = s := by
  unfold require Tx.statement at h
  split at h
  · cases hr : read s.tables with
    | none =>
      simp only [hr] at h
      cases h
    | some found =>
      simp only [hr] at h
      cases h
      exact ⟨rfl, rfl⟩
  · cases h

section Extraction

variable (hP : ∀ await db, P db → P (env.committing await db))
include hP

theorem keeps_extract (sessionId : Uuid) (dreamId : ℕ) :
    Tx.Keeps P safe (extract env sessionId dreamId) :=
  .bind (keeps_require _ _) fun _ => .bind (keeps_require _ _) fun _ =>
    .bind (Environment.keeps_generate hP _ _ _) fun _ => .bind (.lift _) fun _ =>
    .bind (.lift _) fun _ => .lift _

/-- Whatever the extraction raises, the session stays usable. -/
theorem keeps_assembleDreamMemory (sessionId : Uuid) (dreamId : Option ℕ) :
    Tx.Keeps P safe (assembleDreamMemory env sessionId dreamId) :=
  .bind (.lift _) fun _ => .bind (keeps_require _ _) fun _ =>
    .bind (.bind (keeps_require _ _) fun _ => .bind (keeps_extract hP _ _) fun _ => .pure _)
      fun _ => .pure _

end Extraction

theorem keeps_upsertDreamMemory (hP : ∀ db memories, P db → P { db with memories := memories })
    (dreamId : ℕ) (sessionId : Uuid) (userId : ℤ) (memory : StructuredDreamMemoryV1)
    (analysisJobId : Option Uuid) :
    Tx.Keeps P False (upsertDreamMemory env dreamId sessionId userId memory analysisJobId) := by
  refine .bind (.query _) fun existing => ?_
  cases existing with
  | none => exact .bind (.flush fun _ h => hP _ _ h) fun _ => .pure _
  | some row => exact .bind (.flush fun _ h => hP _ _ h) fun _ => .pure _

end Frame

/-! ### The upsert -/

section Upsert

variable {env : Environment} {dreamId : ℕ} {sessionId : Uuid} {userId : ℤ}
  {memory : StructuredDreamMemoryV1} {analysisJobId : Option Uuid} {s : AsyncSession Database}

theorem upsert_ok (hs : s.usable = true) (h : env.conflict .saveMemory = none) :
    Tx.Succeeds (upsertDreamMemory env dreamId sessionId userId memory analysisJobId) s := by
  refine .bind_of_ok (Tx.query_ok hs _) ?_
  cases s.tables.memories.find? fun row => row.dreamId = dreamId with
  | none => exact .bind_of_ok (Environment.flush_ok (by exact hs) h) (.pure (by exact hs) _)
  | some row => exact .bind_of_ok (Environment.flush_ok (by exact hs) h) (.pure (by exact hs) _)

theorem upsert_conflict (hs : s.usable = true) (h : env.conflict .saveMemory ≠ none) :
    Tx.Breaks (upsertDreamMemory env dreamId sessionId userId memory analysisJobId) s := by
  refine .bind_of_ok (Tx.query_ok hs _) ?_
  cases s.tables.memories.find? fun row => row.dreamId = dreamId with
  | none => exact .bind (Environment.breaks_flush (by exact hs) h)
  | some row => exact .bind (Environment.breaks_flush (by exact hs) h)

end Upsert

end LiberNovus.Memory

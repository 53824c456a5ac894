import LiberNovus.Database
import LiberNovus.Foundation.ForeignKeys

/-! The foreign keys of the tables, and what the statements on one table have to observe to keep
them. -/

namespace LiberNovus.Integrity

open ForeignKeys LiberNovus.Runtime Analysis Session Memory Dialogue

/-- The tables that a foreign key refers to. -/
inductive Parent where
  | sessions | dreams | jobs | threads | analyses
  deriving DecidableEq, Repr

def Parent.keys : Parent → Database → List ℕ
  | .sessions, db => db.sessions.map DreamSession.id
  | .dreams, db => db.dreams.map Dream.id
  | .jobs, db => db.jobs.map AnalysisJob.id
  | .threads, db => db.threads.map AnalysisThread.id
  | .analyses, db => db.analyses.map SessionAnalysis.id

/-- The columns with a `ForeignKey`. -/
inductive Reference where
  | dreamSession
  | summarySession
  | turnSession | turnDream
  | jobSession | jobDream | jobThread
  | threadSession | threadLastAnalysis
  | analysisSession | analysisThread
  | memoryDream | memorySession
  | traceSession | traceDream | traceJob
  deriving DecidableEq, Repr

/-- The table that the column refers to. -/
def Reference.parent : Reference → Parent
  | .dreamSession | .summarySession | .turnSession | .jobSession | .threadSession
  | .analysisSession | .memorySession | .traceSession => .sessions
  | .turnDream | .jobDream | .memoryDream | .traceDream => .dreams
  | .traceJob => .jobs
  | .jobThread | .analysisThread => .threads
  | .threadLastAnalysis => .analyses

/-- Its values that are not null. -/
def Reference.values : Reference → Database → List ℕ
  | .dreamSession, db => db.dreams.map Dream.sessionId
  | .summarySession, db => db.summaries.map SessionSummary.sessionId
  | .turnSession, db => db.turns.map ConversationTurn.sessionId
  | .turnDream, db => db.turns.filterMap ConversationTurn.dreamId
  | .jobSession, db => db.jobs.map AnalysisJob.sessionId
  | .jobDream, db => db.jobs.filterMap AnalysisJob.dreamId
  | .jobThread, db => db.jobs.filterMap AnalysisJob.threadId
  | .threadSession, db => db.threads.map AnalysisThread.sessionId
  | .threadLastAnalysis, db => db.threads.filterMap AnalysisThread.lastAnalysisId
  | .analysisSession, db => db.analyses.map SessionAnalysis.sessionId
  | .analysisThread, db => db.analyses.map SessionAnalysis.threadId
  | .memoryDream, db => db.memories.map DreamMemory.dreamId
  | .memorySession, db => db.memories.map DreamMemory.sessionId
  | .traceSession, db => db.traces.filterMap DialoguePolicyTrace.sessionId
  | .traceDream, db => db.traces.filterMap DialoguePolicyTrace.dreamId
  | .traceJob, db => db.traces.filterMap DialoguePolicyTrace.jobId

def schema : Schema Reference Database ℕ where
  references := Reference.values
  targets ref db := ref.parent.keys db
  all := [.dreamSession, .summarySession, .turnSession, .turnDream, .jobSession, .jobDream,
    .jobThread, .threadSession, .threadLastAnalysis, .analysisSession, .analysisThread,
    .memoryDream, .memorySession, .traceSession, .traceDream, .traceJob]
  complete ref := by cases ref <;> simp

theorem integral_empty : schema.Integral Database.empty := by
  intro ref k hk
  cases ref <;> exact absurd hk List.not_mem_nil

/-! ### Statements on one table -/

section Statements

variable {db after : Database}

/-- Nothing but the tables counts, and no key is gone. -/
theorem grows_of_keys (hkeys : ∀ parent : Parent, parent.keys db ⊆ parent.keys after)
    (hvalues : ∀ ref : Reference, ∀ k ∈ ref.values after,
      k ∈ ref.values db ∨ k ∈ ref.parent.keys after) : schema.Grows db after :=
  ⟨fun ref => hkeys ref.parent, hvalues⟩

/-- The keys that other rows may refer to. -/
def InSession (sessionId : Uuid) (db : Database) : Prop := sessionId ∈ Parent.sessions.keys db

def HasDream (dreamId : ℕ) (db : Database) : Prop := dreamId ∈ Parent.dreams.keys db

def HasThread (threadId : Uuid) (db : Database) : Prop := threadId ∈ Parent.threads.keys db

def HasAnalysis (analysisId : Uuid) (db : Database) : Prop := analysisId ∈ Parent.analyses.keys db

/-- A column that the rewriting of the rows leaves alone. -/
theorem map_column {ρ β : Type} {f : ρ → ρ} {column : ρ → β} (hf : ∀ row, column (f row) = column row)
    (rows : List ρ) : (rows.map f).map column = rows.map column := by
  simp only [List.map_map, Function.comp_def, hf]

theorem mem_column {ρ β : Type} {f : ρ → ρ} {column : ρ → β} (hf : ∀ row, column (f row) = column row)
    {rows : List ρ} {b : β} : b ∈ (rows.map f).map column ↔ b ∈ rows.map column := by
  rw [map_column hf]

theorem mem_filterMap_column {ρ β : Type} {f : ρ → ρ} {column : ρ → Option β}
    (hf : ∀ row, column (f row) = column row) {rows : List ρ} {b : β} :
    b ∈ (rows.map f).filterMap column ↔ b ∈ rows.filterMap column := by
  simp only [List.filterMap_map, Function.comp_def, hf]

theorem grows_summaries {summaries : List SessionSummary}
    (h : ∀ row ∈ summaries, row ∈ db.summaries ∨ InSession row.sessionId db) :
    schema.Grows db { db with summaries := summaries } := by
  refine grows_of_keys (fun parent => by cases parent <;> exact List.Subset.refl _) fun ref k hk => ?_
  cases ref
  case summarySession =>
    obtain ⟨row, hrow, rfl⟩ := List.mem_map.mp hk
    exact (h row hrow).imp_left (List.mem_map_of_mem ·)
  all_goals exact .inl hk

/-- Threads are rewritten, but not moved, and their last analysis is there. -/
theorem grows_rewriteThreads {f : AnalysisThread → AnalysisThread}
    (hid : ∀ row, (f row).id = row.id) (hsession : ∀ row, (f row).sessionId = row.sessionId)
    (hlast : ∀ row, (f row).lastAnalysisId = row.lastAnalysisId ∨
      ∀ k ∈ (f row).lastAnalysisId, HasAnalysis k db) :
    schema.Grows db { db with threads := db.threads.map f } := by
  refine grows_of_keys (fun parent => ?_) fun ref k hk => ?_
  · cases parent
    case threads => exact fun _ => (mem_column hid).mpr
    all_goals exact List.Subset.refl _
  · cases ref
    case threadSession => exact .inl ((mem_column hsession).mp hk)
    case threadLastAnalysis =>
      obtain ⟨_, hmem, hk⟩ := List.mem_filterMap.mp hk
      obtain ⟨row, hrow, rfl⟩ := List.mem_map.mp hmem
      rcases hlast row with hsame | hnew
      · exact .inl (List.mem_filterMap.mpr ⟨row, hrow, hsame ▸ hk⟩)
      · exact .inr (hnew k hk)
    all_goals exact .inl hk

theorem grows_insertThread {row : AnalysisThread} (hsession : InSession row.sessionId db)
    (hlast : row.lastAnalysisId = none) :
    schema.Grows db { db with threads := db.threads ++ [row] } := by
  refine grows_of_keys (fun parent => ?_) fun ref k hk => ?_
  · cases parent
    case threads => simp [Parent.keys]
    all_goals exact List.Subset.refl _
  · cases ref
    case threadSession =>
      simp only [Reference.values, List.map_append, List.mem_append, List.map_cons, List.map_nil,
        List.mem_singleton] at hk
      rcases hk with hk | rfl
      · exact .inl hk
      · exact .inr hsession
    case threadLastAnalysis =>
      simp only [Reference.values, List.filterMap_append, List.filterMap_cons, hlast,
        List.filterMap_nil, List.append_nil] at hk
      exact .inl hk
    all_goals exact .inl hk

/-- Analyses are rewritten, but not moved. -/
theorem grows_rewriteAnalyses {f : SessionAnalysis → SessionAnalysis}
    (hid : ∀ row, (f row).id = row.id) (hsession : ∀ row, (f row).sessionId = row.sessionId)
    (hthread : ∀ row, (f row).threadId = row.threadId) :
    schema.Grows db { db with analyses := db.analyses.map f } := by
  refine grows_of_keys (fun parent => ?_) fun ref k hk => .inl ?_
  · cases parent
    case analyses => exact fun _ => (mem_column hid).mpr
    all_goals exact List.Subset.refl _
  · cases ref
    case analysisSession => exact (mem_column hsession).mp hk
    case analysisThread => exact (mem_column hthread).mp hk
    all_goals exact hk

theorem grows_insertAnalysis {row : SessionAnalysis} (hsession : InSession row.sessionId db)
    (hthread : HasThread row.threadId db) :
    schema.Grows db { db with analyses := db.analyses ++ [row] } := by
  refine grows_of_keys (fun parent => ?_) fun ref k hk => ?_
  · cases parent
    case analyses => simp [Parent.keys]
    all_goals exact List.Subset.refl _
  · cases ref
    case analysisSession =>
      simp only [Reference.values, List.map_append, List.mem_append, List.map_cons, List.map_nil,
        List.mem_singleton] at hk
      rcases hk with hk | rfl
      · exact .inl hk
      · exact .inr hsession
    case analysisThread =>
      simp only [Reference.values, List.map_append, List.mem_append, List.map_cons, List.map_nil,
        List.mem_singleton] at hk
      rcases hk with hk | rfl
      · exact .inl hk
      · exact .inr hthread
    all_goals exact .inl hk

/-- Memories are rewritten, but stay with their dreams, or they are added. -/
theorem grows_memories {memories : List DreamMemory}
    (h : ∀ row ∈ memories,
      (∃ row₀ ∈ db.memories, row₀.dreamId = row.dreamId ∧ row₀.sessionId = row.sessionId) ∨
        HasDream row.dreamId db ∧ InSession row.sessionId db) :
    schema.Grows db { db with memories := memories } := by
  refine grows_of_keys (fun parent => by cases parent <;> exact List.Subset.refl _) fun ref k hk => ?_
  cases ref
  case memoryDream =>
    obtain ⟨row, hrow, rfl⟩ := List.mem_map.mp hk
    rcases h row hrow with ⟨row₀, hrow₀, hdream, -⟩ | ⟨hdream, -⟩
    · exact .inl (List.mem_map.mpr ⟨row₀, hrow₀, hdream⟩)
    · exact .inr hdream
  case memorySession =>
    obtain ⟨row, hrow, rfl⟩ := List.mem_map.mp hk
    rcases h row hrow with ⟨row₀, hrow₀, -, hsession⟩ | ⟨-, hsession⟩
    · exact .inl (List.mem_map.mpr ⟨row₀, hrow₀, hsession⟩)
    · exact .inr hsession
  all_goals exact .inl hk

/-- Jobs are rewritten, but stay with their sessions and dreams, and their thread is there. -/
theorem grows_rewriteJobs {f : AnalysisJob → AnalysisJob} (hid : ∀ row, (f row).id = row.id)
    (hsession : ∀ row, (f row).sessionId = row.sessionId)
    (hdream : ∀ row, (f row).dreamId = row.dreamId)
    (hthread : ∀ row, (f row).threadId = row.threadId ∨ ∀ k ∈ (f row).threadId, HasThread k db) :
    schema.Grows db { db with jobs := db.jobs.map f } := by
  refine grows_of_keys (fun parent => ?_) fun ref k hk => ?_
  · cases parent
    case jobs => exact fun _ => (mem_column hid).mpr
    all_goals exact List.Subset.refl _
  · cases ref
    case jobSession => exact .inl ((mem_column hsession).mp hk)
    case jobDream => exact .inl ((mem_filterMap_column hdream).mp hk)
    case jobThread =>
      obtain ⟨_, hmem, hk⟩ := List.mem_filterMap.mp hk
      obtain ⟨row, hrow, rfl⟩ := List.mem_map.mp hmem
      rcases hthread row with hsame | hnew
      · exact .inl (List.mem_filterMap.mpr ⟨row, hrow, hsame ▸ hk⟩)
      · exact .inr (hnew k hk)
    all_goals exact .inl hk

end Statements

end LiberNovus.Integrity

import LiberNovus.Foundation.ReadCommitted
import LiberNovus.Runtime.Job

/-! Analysis threads and session analyses: the rows, their partial unique indexes
(one active thread per session, one latest analysis per thread), and the assembly
of an analysis row. -/

namespace LiberNovus.Analysis

open Rows ReadCommitted

inductive ThreadStatus where
  | active | idle | closed
  deriving DecidableEq, Repr

/-- A row of `analysis_threads`. -/
structure AnalysisThread where
  id : Uuid
  sessionId : Uuid
  status : ThreadStatus
  createdAt : Time
  lastActivityAt : Option Time
  lastAnalysisId : Option Uuid
  deriving DecidableEq, Repr

/-- A row of `session_analyses`; `analysisJson` is the serialised column. -/
structure SessionAnalysis where
  id : Uuid
  sessionId : Uuid
  threadId : Uuid
  userId : ℤ
  provider : String
  model : String
  promptVersion : String
  analysisVersion : String
  analysisJson : String
  rawResponse : Option String
  isLatest : Bool
  continuationIndex : ℕ
  analysisJobId : Option Uuid
  createdAt : Time
  deriving DecidableEq, Repr

instance : Keyed AnalysisThread Uuid := ⟨AnalysisThread.id⟩

instance : Keyed SessionAnalysis Uuid := ⟨SessionAnalysis.id⟩

/-- `ix_analysis_threads_one_active_per_session`. -/
instance : Indexed AnalysisThread Uuid :=
  ⟨fun thread => if thread.status = .active then some thread.sessionId else none⟩

/-- `ix_session_analyses_one_latest_per_thread`. -/
instance : Indexed SessionAnalysis Uuid :=
  ⟨fun analysis => if analysis.isLatest then some analysis.threadId else none⟩

@[simp] theorem key_thread (thread : AnalysisThread) : key thread = thread.id := rfl

@[simp] theorem key_analysis (analysis : SessionAnalysis) : key analysis = analysis.id := rfl

/-- A validated analysis, before it has a thread. -/
structure AnalysisPayload where
  sessionId : Uuid
  userId : ℤ
  provider : String
  model : String
  promptVersion : String
  analysisVersion : String
  analysisJson : String
  rawResponse : Option String
  deriving DecidableEq, Repr

/-- `SessionAnalysisPrepareResult`: the payload and the thread it goes to. -/
structure SessionAnalysisPrepareResult extends AnalysisPayload where
  thread : AnalysisThread
  deriving DecidableEq, Repr

/-- `next_continuation_index`: the number of analyses of the thread. -/
def nextContinuationIndex (analyses : List SessionAnalysis) (threadId : Uuid) : ℕ :=
  analyses.countP fun analysis => analysis.threadId = threadId

/-- `build_session_analysis_row` on the analyses its `COUNT` sees; `createdAt` is the
start of the transaction that will insert the row. -/
def buildSessionAnalysisRow (analyses : List SessionAnalysis)
    (prepared : SessionAnalysisPrepareResult) (id : Uuid) (createdAt : Time) : SessionAnalysis where
  id := id
  sessionId := prepared.sessionId
  threadId := prepared.thread.id
  userId := prepared.userId
  provider := prepared.provider
  model := prepared.model
  promptVersion := prepared.promptVersion
  analysisVersion := prepared.analysisVersion
  analysisJson := prepared.analysisJson
  rawResponse := prepared.rawResponse
  isLatest := true
  continuationIndex := nextContinuationIndex analyses prepared.thread.id
  analysisJobId := none
  createdAt := createdAt

/-- `SessionAnalysis.with_job_id`; `none` is the `ValueError` for a row that is
bound to another job. -/
def SessionAnalysis.withJobId (analysis : SessionAnalysis) (jobId : Uuid) :
    Option SessionAnalysis :=
  match analysis.analysisJobId with
  | none => some { analysis with analysisJobId := some jobId }
  | some bound => if bound = jobId then some analysis else none

/-- An assembled row is unbound, so the executor always can bind it. -/
theorem withJobId_build (analyses : List SessionAnalysis) (prepared : SessionAnalysisPrepareResult)
    (id : Uuid) (createdAt : Time) (jobId : Uuid) :
    (buildSessionAnalysisRow analyses prepared id createdAt).withJobId jobId =
      some { buildSessionAnalysisRow analyses prepared id createdAt with
        analysisJobId := some jobId } := rfl

/-- The condition of `_clear_latest_for_thread`. -/
def SessionAnalysis.LatestOf (threadId : Uuid) (analysis : SessionAnalysis) : Prop :=
  analysis.threadId = threadId ∧ analysis.isLatest = true

instance (threadId : Uuid) : DecidablePred (SessionAnalysis.LatestOf threadId) :=
  fun _ => inferInstanceAs (Decidable (_ ∧ _))

def SessionAnalysis.superseded (analysis : SessionAnalysis) : SessionAnalysis :=
  { analysis with isLatest := false }

/-- What `persist_session_analysis_in_thread` writes to the thread row. -/
def AnalysisThread.persisted (analysisId : Uuid) (activityAt : Time) (thread : AnalysisThread) :
    AnalysisThread :=
  { thread with lastAnalysisId := some analysisId, lastActivityAt := some activityAt }

/-- The continuation indices of a thread, in the order of the rows. -/
def indices (analyses : List SessionAnalysis) (threadId : Uuid) : List ℕ :=
  (analyses.filter fun analysis => analysis.threadId = threadId).map
    SessionAnalysis.continuationIndex

theorem length_indices (analyses : List SessionAnalysis) (threadId : Uuid) :
    (indices analyses threadId).length = nextContinuationIndex analyses threadId := by
  simp [indices, nextContinuationIndex, List.countP_eq_length_filter]

/-- Thread and index of a row, which no statement changes once it is written. -/
def SessionAnalysis.place (analysis : SessionAnalysis) : Uuid × ℕ :=
  (analysis.threadId, analysis.continuationIndex)

theorem indices_eq_place (analyses : List SessionAnalysis) (threadId : Uuid) :
    indices analyses threadId =
      ((analyses.map SessionAnalysis.place).filter fun p => p.1 = threadId).map Prod.snd := by
  induction analyses with
  | nil => rfl
  | cons analysis analyses ih =>
    simp only [indices, List.map_cons, SessionAnalysis.place] at ih ⊢
    by_cases h : analysis.threadId = threadId <;> simp [h, ih]

end LiberNovus.Analysis

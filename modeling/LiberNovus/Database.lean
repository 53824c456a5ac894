import LiberNovus.Analysis.Model
import LiberNovus.Dialogue.Policy
import LiberNovus.Memory.Model

/-! The tables, for code that runs alone in its transaction. -/

namespace LiberNovus

open LiberNovus.Runtime Analysis Session Memory Dialogue

inductive TurnRole where
  | user | assistant | system
  deriving DecidableEq, Repr

inductive TurnType where
  | dreamIntake | dialogue | clarification | safety
  deriving DecidableEq, Repr

/-- A row of `conversation_turns`; `metadataJson` is the serialised column. -/
structure ConversationTurn where
  id : Uuid
  userId : ℤ
  sessionId : Uuid
  dreamId : Option ℕ
  role : TurnRole
  turnType : TurnType
  source : String
  text : String
  metadataJson : Option String
  createdAt : Time
  deriving DecidableEq, Repr

structure Database where
  sessions : List DreamSession
  dreams : List Dream
  summaries : List SessionSummary
  turns : List ConversationTurn
  jobs : List AnalysisJob
  threads : List AnalysisThread
  analyses : List SessionAnalysis
  memories : List DreamMemory
  traces : List DialoguePolicyTrace
  deriving DecidableEq

/-- The tables before the first request. -/
def Database.empty : Database := ⟨[], [], [], [], [], [], [], [], []⟩

end LiberNovus

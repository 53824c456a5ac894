import Mathlib.Data.List.Infix
import LiberNovus.Runtime.Job

/-! The structured memory of a dream. -/

namespace LiberNovus.Memory

structure DreamFigureV1 where
  name : String
  roleHint : String
  emotionalCharge : String
  deriving DecidableEq, Repr

structure AmplificationCandidateV1 where
  symbol : String
  personal : String
  cultural : String
  archetypal : String
  deriving DecidableEq, Repr

structure StructuredDreamMemoryV1 where
  dreamDetails : List String
  dreamEgoActivity : List String
  figures : List DreamFigureV1
  emotionalField : List String
  personalContextQuestions : List String
  amplificationCandidates : List AmplificationCandidateV1
  compensationHypotheses : List String
  openQuestions : List String
  recurringMotifs : List String
  uncertaintyNotes : List String
  deriving DecidableEq, Repr

/-- A row of `dream_memories`; `dream_id` is unique. -/
structure DreamMemory where
  id : Uuid
  dreamId : ℕ
  sessionId : Uuid
  userId : ℤ
  memoryVersion : String
  memoryJson : StructuredDreamMemoryV1
  analysisJobId : Option Uuid
  createdAt : Time
  deriving DecidableEq, Repr

def forbiddenInterpretiveMarkers : List String :=
  ["архетип", "тень", "символиз", "означа", "скрытый смысл", "юнгиан"]

/-- `_iter_strings` of the dump: the strings at every depth. -/
def StructuredDreamMemoryV1.strings (memory : StructuredDreamMemoryV1) : List String :=
  memory.dreamDetails ++ memory.dreamEgoActivity ++
    memory.figures.flatMap (fun figure => [figure.name, figure.roleHint, figure.emotionalCharge]) ++
    memory.emotionalField ++ memory.personalContextQuestions ++
    memory.amplificationCandidates.flatMap (fun candidate =>
      [candidate.symbol, candidate.personal, candidate.cultural, candidate.archetypal]) ++
    memory.compensationHypotheses ++ memory.openQuestions ++ memory.recurringMotifs ++
    memory.uncertaintyNotes

/-- `_sanitize_memory`, with the lower case of the Unicode tables. -/
def sanitizeMemory (lower : String → String) (memory : StructuredDreamMemoryV1) :
    Except String StructuredDreamMemoryV1 :=
  if ∃ value ∈ memory.strings, ∃ marker ∈ forbiddenInterpretiveMarkers,
      marker.toList <:+: (lower value).toList then
    .error "Memory payload contains interpretive markers"
  else .ok memory

end LiberNovus.Memory

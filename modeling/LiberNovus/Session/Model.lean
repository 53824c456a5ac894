import LiberNovus.Foundation.ReadCommitted
import LiberNovus.Runtime.Job

/-! Dream sessions, the dreams in them, and the cached summary of a session. -/

namespace LiberNovus.Session

open Rows ReadCommitted

inductive SessionStatus where
  | active | closed
  deriving DecidableEq, Repr

/-- A row of `dream_sessions`. -/
structure DreamSession where
  id : Uuid
  userId : ℤ
  status : SessionStatus
  createdAt : Time
  lastActivityAt : Time
  deriving DecidableEq, Repr

instance : Keyed DreamSession Uuid := ⟨DreamSession.id⟩

/-- `dream_sessions` has no partial unique index. -/
instance : Indexed DreamSession Empty := ⟨fun _ => none⟩

@[simp] theorem key_session (session : DreamSession) : key session = session.id := rfl

/-- A row of `dreams`. -/
structure Dream where
  id : ℕ
  userId : ℤ
  text : String
  createdAt : Time
  sessionId : Uuid
  deriving DecidableEq, Repr

instance : Keyed Dream ℕ := ⟨Dream.id⟩

/-- What a summary says about the dreams of a session. -/
structure SummaryContent where
  dreamCount : ℕ
  keySymbols : List String
  recurringWords : List String
  rawTextSample : Option String
  deriving DecidableEq, Repr

/-- A row of `session_summaries`; `session_id` is unique. -/
structure SessionSummary extends SummaryContent where
  id : Uuid
  sessionId : Uuid
  userId : ℤ
  createdAt : Time
  deriving DecidableEq, Repr

def inactivityThreshold : Time := seconds (72 * 3600)

/-- `close_session`, on the row it names. -/
def DreamSession.closed (session : DreamSession) : DreamSession := { session with status := .closed }

@[simp] theorem closed_id (session : DreamSession) : session.closed.id = session.id := rfl

end LiberNovus.Session

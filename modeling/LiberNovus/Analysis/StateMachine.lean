import Mathlib.Data.List.Sort
import LiberNovus.Analysis.Model
import LiberNovus.Session.Model

/-! The analysis state machine: snapshots of the session and of its active thread,
the pure decision over them, and the static template of commands per decision. -/

namespace LiberNovus.Analysis

open Rows Session

/-- What goes wrong in resolving a thread: a `ValueError`, or a
`StateMachineConcurrencyError`. -/
inductive ResolveError where
  | value (message : String)
  | concurrency (message : String)
  deriving DecidableEq, Repr

structure SessionSnapshot where
  sessionId : Uuid
  status : SessionStatus
  lastActivityAt : Option Time
  deriving DecidableEq, Repr

structure ThreadSnapshot where
  threadId : Option Uuid
  status : Option ThreadStatus
  lastActivityAt : Option Time
  createdAt : Option Time
  deriving DecidableEq, Repr

/-! ### Snapshots -/

def buildSessionSnapshot (sessions : List DreamSession) (sessionId : Uuid) :
    Except ResolveError SessionSnapshot :=
  match get sessions sessionId with
  | none => .error (.value s!"Session {sessionId} not found")
  | some session => .ok ⟨session.id, session.status, some session.lastActivityAt⟩

def AnalysisThread.ActiveIn (sessionId : Uuid) (thread : AnalysisThread) : Prop :=
  thread.sessionId = sessionId ∧ thread.status = .active

instance (sessionId : Uuid) : DecidablePred (AnalysisThread.ActiveIn sessionId) :=
  fun _ => inferInstanceAs (Decidable (_ ∧ _))

/-- `ORDER BY created_at DESC, id DESC`. -/
def AnalysisThread.Precedes (a b : AnalysisThread) : Prop :=
  b.createdAt < a.createdAt ∨ b.createdAt = a.createdAt ∧ b.id ≤ a.id

instance : DecidableRel AnalysisThread.Precedes := fun _ _ => inferInstanceAs (Decidable (_ ∨ _))

/-- `get_active_thread`, which is also the query of `build_thread_snapshot`. -/
def getActiveThread (threads : List AnalysisThread) (sessionId : Uuid) : Option AnalysisThread :=
  ((threads.filter (AnalysisThread.ActiveIn sessionId ·)).insertionSort
    AnalysisThread.Precedes).head?

def buildThreadSnapshot (threads : List AnalysisThread) (sessionId : Uuid) : ThreadSnapshot :=
  match getActiveThread threads sessionId with
  | none => ⟨none, none, none, none⟩
  | some thread =>
    ⟨some thread.id, some thread.status, thread.lastActivityAt, some thread.createdAt⟩

theorem activeIn_of_getActiveThread {threads : List AnalysisThread} {sessionId : Uuid}
    {thread : AnalysisThread} (h : getActiveThread threads sessionId = some thread) :
    thread ∈ threads ∧ thread.ActiveIn sessionId := by
  have hm := (List.perm_insertionSort _ _).subset (List.mem_of_head? h)
  simpa using hm

theorem getActiveThread_eq_none {threads : List AnalysisThread} {sessionId : Uuid} :
    getActiveThread threads sessionId = none ↔ ∀ thread ∈ threads, ¬ thread.ActiveIn sessionId := by
  have hl := (List.perm_insertionSort AnalysisThread.Precedes
    (threads.filter (AnalysisThread.ActiveIn sessionId ·))).length_eq
  rw [getActiveThread, List.head?_eq_none_iff, ← List.length_eq_zero_iff, hl,
    List.length_eq_zero_iff, List.filter_eq_nil_iff]
  simp

/-! ### Decision -/

/-- `is_session_closed`. -/
def SessionSnapshot.Closed (session : SessionSnapshot) : Prop := session.status ≠ .active

instance (session : SessionSnapshot) : Decidable session.Closed :=
  inferInstanceAs (Decidable (_ ≠ _))

def ThreadSnapshot.activityAt (thread : ThreadSnapshot) : Option Time :=
  thread.lastActivityAt.or thread.createdAt

/-- `is_thread_fresh`. -/
def ThreadSnapshot.Fresh (thread : ThreadSnapshot) (now : Time) : Prop :=
  ∃ activity ∈ thread.activityAt, now - activity ≤ inactivityThreshold

instance (thread : ThreadSnapshot) (now : Time) : Decidable (thread.Fresh now) :=
  inferInstanceAs (Decidable (∃ _ ∈ _, _))

inductive DecisionAction where
  | continue | createNew | markIdle | closeAndCreateNew
  deriving DecidableEq, Repr

/-- `DecisionDTO`; `rule` is its metadata. Its confidence is always the default 1,
the only value that the constructor accepts. -/
structure DecisionDTO where
  action : DecisionAction
  targetThreadId : Option Uuid
  rule : String
  deriving DecidableEq, Repr

def resolveThreadDecision (session : SessionSnapshot) (thread : ThreadSnapshot)
    (mode : AnalysisMode) (now : Time) : DecisionDTO :=
  if session.Closed then ⟨.closeAndCreateNew, thread.threadId, "session_closed"⟩
  else if thread.threadId = none then ⟨.createNew, none, "missing_thread"⟩
  else if thread.status = some .closed then ⟨.createNew, thread.threadId, "thread_closed"⟩
  else if thread.status = some .idle then ⟨.createNew, thread.threadId, "thread_idle"⟩
  else if ¬ thread.Fresh now then ⟨.markIdle, thread.threadId, "stale_thread"⟩
  else if mode = .new then ⟨.createNew, thread.threadId, "mode_new"⟩
  else ⟨.continue, thread.threadId, "continue_allowed"⟩

/-- A thread is continued only when its session is open, it is active and fresh, and
the caller does not ask for a new one. -/
theorem resolveThreadDecision_continue {session : SessionSnapshot} {thread : ThreadSnapshot}
    {mode : AnalysisMode} {now : Time}
    (h : (resolveThreadDecision session thread mode now).action = .continue) :
    session.status = .active ∧ thread.threadId ≠ none ∧ thread.status ≠ some .closed ∧
      thread.status ≠ some .idle ∧ thread.Fresh now ∧ mode ≠ .new := by
  unfold resolveThreadDecision at h
  repeat' split at h
  all_goals try cases h
  rename_i hs hthread hclosed hidle hfresh hmode
  exact ⟨not_not.mp hs, hthread, hclosed, hidle, not_not.mp hfresh, hmode⟩

/-- The target of a decision is the thread of the snapshot. -/
theorem resolveThreadDecision_target (session : SessionSnapshot) (thread : ThreadSnapshot)
    (mode : AnalysisMode) (now : Time) :
    (resolveThreadDecision session thread mode now).targetThreadId = thread.threadId := by
  grind [resolveThreadDecision]

/-- Without a thread in an open session there is nothing to continue or to mark. -/
theorem resolveThreadDecision_missing {session : SessionSnapshot} {thread : ThreadSnapshot}
    (h : thread.threadId = none) (mode : AnalysisMode) (now : Time) :
    (resolveThreadDecision session thread mode now).action =
      if session.Closed then .closeAndCreateNew else .createNew := by
  grind [resolveThreadDecision]

/-! ### Commands -/

inductive TransitionCommandType where
  | continue | createNew | markIdle | closeThread
  deriving DecidableEq, Repr

structure TransitionCommand where
  commandType : TransitionCommandType
  threadId : Option Uuid
  deriving DecidableEq, Repr

structure NormalizedTransition where
  action : DecisionAction
  targetThreadId : Option Uuid
  commands : List TransitionCommand
  deriving DecidableEq, Repr

def actionCommandMap : DecisionAction → List TransitionCommandType
  | .continue => [.continue]
  | .createNew => [.createNew]
  | .markIdle => [.markIdle, .createNew]
  | .closeAndCreateNew => [.closeThread, .createNew]

/-- `normalized_transition`: every command but `CREATE_NEW` names the target. -/
def normalizedTransition (decision : DecisionDTO) : NormalizedTransition where
  action := decision.action
  targetThreadId := decision.targetThreadId
  commands := (actionCommandMap decision.action).map fun commandType =>
    ⟨commandType, if commandType = .createNew then none else decision.targetThreadId⟩

end LiberNovus.Analysis

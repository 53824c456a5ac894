import LiberNovus.Analysis.Persistence
import LiberNovus.Analysis.ThreadService

/-! One analysis transaction, statement by statement: `resolve_thread_for_analysis`
with its bounded second attempt, and then the assembly and the persistence of the
analysis. `Effect` says once what a statement can do. -/

namespace LiberNovus.Analysis

open Rows ReadCommitted Session

/-- What the caller wants analysed. `now` is the clock of the decision, `startedAt`
the start of the transaction. -/
structure Request where
  payload : AnalysisPayload
  mode : AnalysisMode
  now : Time
  startedAt : Time
  jobId : Option Uuid
  deriving DecidableEq, Repr

/-- The loop state of `resolve_thread_for_analysis`. The session row is read once: the
transaction keeps the loaded object. -/
structure Attempt where
  session : SessionSnapshot
  reresolveUsed : Bool
  deriving DecidableEq, Repr

/-- How far a transaction has got. The stages from `applying` to `inserting` are in
the savepoint of an attempt; `idling` and `inserting` are the two statements of
`create_thread`. `raised` has left the savepoint with an exception. -/
inductive Stage where
  | opened
  | snapshot (attempt : Attempt)
  | applying (attempt : Attempt) (decision : DecisionDTO) (commands : List TransitionCommand)
      (thread : Option AnalysisThread)
  | idling (attempt : Attempt) (decision : DecisionDTO) (commands : List TransitionCommand)
      (actives : List Uuid)
  | inserting (attempt : Attempt) (decision : DecisionDTO) (commands : List TransitionCommand)
  | resolved (decision : DecisionDTO) (persist : Persist)
  | raised
  deriving DecidableEq

structure Transaction where
  request : Request
  stage : Stage
  deriving DecidableEq

namespace Transaction

def sessionId (x : Transaction) : Uuid := x.request.payload.sessionId

def goto (x : Transaction) (stage : Stage) : Transaction := { x with stage := stage }

/-- The decision over a thread snapshot of `threads`. -/
def decide (x : Transaction) (attempt : Attempt) (threads : List AnalysisThread) : DecisionDTO :=
  resolveThreadDecision attempt.session (buildThreadSnapshot threads x.sessionId) x.request.mode
    x.request.now

/-- The stage after an exception in the savepoint: only a concurrency error of the
first attempt is resolved again. -/
def handle (attempt : Attempt) : ResolveError → Stage
  | .value _ => .raised
  | .concurrency _ =>
    if attempt.reresolveUsed then .raised else .snapshot { attempt with reresolveUsed := true }

/-- The transaction once its thread is resolved. -/
def enter (x : Transaction) (decision : DecisionDTO) (thread : AnalysisThread) : Transaction :=
  x.goto (.resolved decision
    ⟨⟨x.request.payload, thread⟩, x.request.jobId, x.request.startedAt, .building⟩)

section Step

variable {τ : Type*} [DecidableEq τ]

/-- Leave the savepoint with an exception; nothing precedes it on these tables. -/
def fail (db : Tables τ) (a : τ) (x : Transaction) (attempt : Attempt) (e : ResolveError) :
    Tables τ × Transaction :=
  ({ db with threads := db.threads.rollback a }, x.goto (handle attempt e))

/-- `mark_idle` and `close_thread`: an `UPDATE` by primary key. -/
def setStatus (db : Tables τ) (a : τ) (threadId : Uuid) (f : AnalysisThread → AnalysisThread)
    (next : Transaction) : Option (Tables τ × Transaction) :=
  if db.threads.Free a threadId then
    some ({ db with threads := db.threads.write a threadId f }, next)
  else none

/-- The `UPDATE` of `create_thread`. -/
def idleActives (T : Table τ Uuid Uuid AnalysisThread) (a : τ) (sessionId : Uuid)
    (actives : List Uuid) : Table τ Uuid Uuid AnalysisThread :=
  T.writeAll a actives (AnalysisThread.ActiveIn sessionId) AnalysisThread.idled

/-- The next statement of transaction `a`; `sessions` are the session rows it sees,
`id` is the `uuid4` of a new row and `now` the clock. -/
def step (sessions : List DreamSession) (db : Tables τ) (a : τ) (id : Uuid) (now : Time)
    (x : Transaction) : Option (Tables τ × Transaction) :=
  match x.stage with
  | .opened =>
    match buildSessionSnapshot sessions x.sessionId with
    | .error _ => some (db, x.goto .raised)
    | .ok session => some (db, x.goto (.snapshot ⟨session, false⟩))
  | .snapshot attempt =>
    let decision := x.decide attempt (db.threads.view a)
    some (db, x.goto (.applying attempt decision (normalizedTransition decision).commands none))
  | .applying attempt _ [] none =>
    some (fail db a x attempt (.value "Transition did not resolve to a thread"))
  | .applying _ decision [] (some thread) => some (db, x.enter decision thread)
  | .applying attempt decision (command :: commands) thread =>
    match command.commandType with
    | .continue =>
      match requireThreadId "CONTINUE" command with
      | .error e => some (fail db a x attempt e)
      | .ok threadId =>
        match db.threads.seen a threadId with
        | none => some (fail db a x attempt (.concurrency s!"Thread {threadId} not found"))
        | some thread => some (db, x.goto (.applying attempt decision commands (some thread)))
    | .markIdle =>
      match requireThreadId "MARK_IDLE" command with
      | .error e => some (fail db a x attempt e)
      | .ok threadId => setStatus db a threadId AnalysisThread.idled
          (x.goto (.applying attempt decision commands thread))
    | .closeThread =>
      match requireThreadId "CLOSE_THREAD" command with
      | .error e => some (fail db a x attempt e)
      | .ok threadId => setStatus db a threadId AnalysisThread.closed
          (x.goto (.applying attempt decision commands thread))
    | .createNew =>
      let actives := ((db.threads.view a).filter (AnalysisThread.ActiveIn x.sessionId ·)).map
        AnalysisThread.id
      some (db, x.goto (.idling attempt decision commands actives))
  | .idling attempt decision commands actives =>
    if ∀ k ∈ actives, db.threads.Free a k then
      some ({ db with threads := idleActives db.threads a x.sessionId actives },
        x.goto (.inserting attempt decision commands))
    else none
  | .inserting attempt decision commands =>
    let thread := newThread id x.sessionId x.request.startedAt
    if db.threads.Blocked a thread then none
    else if db.threads.Conflicts a thread then
      some (fail db a x attempt (.concurrency conflictMessage))
    else some ({ db with threads := db.threads.insert a thread },
      x.goto (.applying attempt decision commands (some thread)))
  | .resolved decision persist =>
    (persist.step db a id now).map fun r => (r.1, x.goto (.resolved decision r.2))
  | .raised => none

end Step

/-! ### Effects -/

/-- What an attempt still has to execute, and the thread it has found. -/
inductive Plan (decision : DecisionDTO) : List TransitionCommand → Option AnalysisThread → Prop
  | «continue» {t : Uuid} (ha : decision.action = .continue)
      (ht : decision.targetThreadId = some t) : Plan decision [⟨.continue, some t⟩] none
  | continued {thread : AnalysisThread} (ha : decision.action = .continue)
      (ht : decision.targetThreadId = some thread.id) : Plan decision [] (some thread)
  | markIdle {t : Uuid} (ha : decision.action ≠ .continue)
      (ht : decision.targetThreadId = some t) :
      Plan decision [⟨.markIdle, some t⟩, ⟨.createNew, none⟩] none
  | closeThread {target : Option Uuid} (ha : decision.action ≠ .continue) :
      Plan decision [⟨.closeThread, target⟩, ⟨.createNew, none⟩] none
  | createNew (ha : decision.action ≠ .continue) : Plan decision [⟨.createNew, none⟩] none
  | created {thread : AnalysisThread} (ha : decision.action ≠ .continue) :
      Plan decision [] (some thread)

section Effects

variable {τ : Type*} [DecidableEq τ] {sessions : List DreamSession} {db db' : Tables τ} {a : τ}
  {id : Uuid} {now : Time} {x x' : Transaction}

/-- The decision gives a plan, and the thread that the plan continues or marks is
active at the time of the snapshot. -/
theorem plan_decide (x : Transaction) (attempt : Attempt) (threads : List AnalysisThread) :
    Plan (x.decide attempt threads) (normalizedTransition (x.decide attempt threads)).commands none ∧
      ∀ t ∈ (x.decide attempt threads).targetThreadId,
        ∃ thread ∈ threads, thread.id = t ∧ thread.status = .active := by
  have htarget : (x.decide attempt threads).targetThreadId =
      (buildThreadSnapshot threads x.sessionId).threadId :=
    resolveThreadDecision_target _ _ _ _
  have hmissing : (buildThreadSnapshot threads x.sessionId).threadId = none →
      (x.decide attempt threads).action =
        if attempt.session.Closed then .closeAndCreateNew else .createNew :=
    fun h => resolveThreadDecision_missing h _ _
  constructor
  · cases ha : (x.decide attempt threads).action <;>
      cases ht : (x.decide attempt threads).targetThreadId <;>
      simp only [normalizedTransition, actionCommandMap, ha, ht, List.map_cons, List.map_nil,
        reduceCtorEq, if_true, if_false]
    case continue.some => exact .continue ha ht
    case markIdle.some => exact .markIdle (by simp [ha]) ht
    case closeAndCreateNew.some | closeAndCreateNew.none => exact .closeThread (by simp [ha])
    case createNew.some | createNew.none => exact .createNew (by simp [ha])
    -- nothing is continued or marked without a target
    all_goals
      rw [hmissing (htarget.symm.trans ht)] at ha
      split at ha <;> cases ha
  · intro t ht
    rw [htarget, buildThreadSnapshot] at ht
    cases hg : getActiveThread threads x.sessionId with
    | none => simp [hg] at ht
    | some thread =>
      obtain ⟨hm, ha⟩ := activeIn_of_getActiveThread hg
      exact ⟨thread, hm, by simpa [hg] using ht, ha.2⟩

inductive Effect (db : Tables τ) (a : τ) (id : Uuid) (now : Time) (x : Transaction) :
    Tables τ → Transaction → Prop
  | session (attempt : Attempt) (hs : x.stage = .opened) :
      Effect db a id now x db (x.goto (.snapshot attempt))
  | missing (hs : x.stage = .opened) : Effect db a id now x db (x.goto .raised)
  | decide (attempt : Attempt) (hs : x.stage = .snapshot attempt) :
      Effect db a id now x db (x.goto (.applying attempt (x.decide attempt (db.threads.view a))
        (normalizedTransition (x.decide attempt (db.threads.view a))).commands none))
  | undo (attempt : Attempt) (e : ResolveError) (hs : x.stage ≠ .opened)
      (hr : ∀ decision persist, x.stage ≠ .resolved decision persist) :
      Effect db a id now x { db with threads := db.threads.rollback a }
        (x.goto (handle attempt e))
  | enter (attempt : Attempt) (decision : DecisionDTO) (thread : AnalysisThread)
      (hs : x.stage = .applying attempt decision [] (some thread)) :
      Effect db a id now x db (x.enter decision thread)
  | found (attempt : Attempt) (decision : DecisionDTO) (commands : List TransitionCommand)
      (thread : Option AnalysisThread) (thread' : AnalysisThread) (t : Uuid)
      (hs : x.stage = .applying attempt decision (⟨.continue, some t⟩ :: commands) thread)
      (hseen : db.threads.seen a t = some thread') :
      Effect db a id now x db (x.goto (.applying attempt decision commands (some thread')))
  | status (attempt : Attempt) (decision : DecisionDTO) (commands : List TransitionCommand)
      (thread : Option AnalysisThread) (t : Uuid) (type : TransitionCommandType)
      (f : AnalysisThread → AnalysisThread)
      (hf : type = .markIdle ∧ f = AnalysisThread.idled ∨
        type = .closeThread ∧ f = AnalysisThread.closed)
      (hs : x.stage = .applying attempt decision (⟨type, some t⟩ :: commands) thread)
      (hfree : db.threads.Free a t) :
      Effect db a id now x { db with threads := db.threads.write a t f }
        (x.goto (.applying attempt decision commands thread))
  | create (attempt : Attempt) (decision : DecisionDTO) (commands : List TransitionCommand)
      (thread : Option AnalysisThread) (target : Option Uuid) (actives : List Uuid)
      (hs : x.stage = .applying attempt decision (⟨.createNew, target⟩ :: commands) thread) :
      Effect db a id now x db (x.goto (.idling attempt decision commands actives))
  | idle (attempt : Attempt) (decision : DecisionDTO) (commands : List TransitionCommand)
      (actives : List Uuid) (hs : x.stage = .idling attempt decision commands actives)
      (hfree : ∀ k ∈ actives, db.threads.Free a k) :
      Effect db a id now x { db with threads := idleActives db.threads a x.sessionId actives }
        (x.goto (.inserting attempt decision commands))
  | insert (attempt : Attempt) (decision : DecisionDTO) (commands : List TransitionCommand)
      (hs : x.stage = .inserting attempt decision commands)
      (hb : ¬ db.threads.Blocked a (newThread id x.sessionId x.request.startedAt))
      (hc : ¬ db.threads.Conflicts a (newThread id x.sessionId x.request.startedAt)) :
      Effect db a id now x
        { db with threads := db.threads.insert a (newThread id x.sessionId x.request.startedAt) }
        (x.goto (.applying attempt decision commands
          (some (newThread id x.sessionId x.request.startedAt))))
  | persist (decision : DecisionDTO) (persist persist' : Persist) (db' : Tables τ)
      (hs : x.stage = .resolved decision persist) (he : persist.Effect db a id now db' persist') :
      Effect db a id now x db' (x.goto (.resolved decision persist'))

theorem requireThreadId_ok {name : String} {command : TransitionCommand} {t : Uuid}
    (h : requireThreadId name command = .ok t) : command = ⟨command.commandType, some t⟩ := by
  obtain ⟨type, target⟩ := command
  cases target <;> simp_all [requireThreadId]

theorem effect_of_step (h : x.step sessions db a id now = some (db', x')) :
    Effect db a id now x db' x' := by
  unfold step at h
  split at h
  · next hs =>
    split at h <;> cases h
    · exact .missing hs
    · exact .session _ hs
  · next attempt hs =>
    cases h
    exact .decide attempt hs
  · next attempt _ hs =>
    cases h
    exact .undo attempt _ (by simp [hs]) (by simp [hs])
  · next attempt decision thread hs =>
    cases h
    exact .enter attempt decision thread hs
  · next attempt decision command commands thread hs =>
    have hundo : ∀ e, Effect db a id now x { db with threads := db.threads.rollback a }
        (x.goto (handle attempt e)) := fun e => .undo attempt e (by simp [hs]) (by simp [hs])
    split at h
    · next hc =>
      split at h
      · cases h; exact hundo _
      · next t ht =>
        rw [requireThreadId_ok ht, hc] at hs
        split at h <;> cases h
        · exact hundo _
        · next hseen => exact .found attempt decision commands thread _ t hs hseen
    · next hc =>
      split at h
      · cases h; exact hundo _
      · next t ht =>
        rw [requireThreadId_ok ht, hc] at hs
        unfold setStatus at h
        split at h <;> cases h
        next hfree => exact .status attempt decision commands thread t _ _ (.inl ⟨rfl, rfl⟩) hs hfree
    · next hc =>
      split at h
      · cases h; exact hundo _
      · next t ht =>
        rw [requireThreadId_ok ht, hc] at hs
        unfold setStatus at h
        split at h <;> cases h
        next hfree => exact .status attempt decision commands thread t _ _ (.inr ⟨rfl, rfl⟩) hs hfree
    · next hc =>
      cases h
      obtain ⟨type, target⟩ := command
      subst hc
      exact .create attempt decision commands thread target _ hs
  · next attempt decision commands actives hs =>
    split at h <;> cases h
    next hfree => exact .idle attempt decision commands actives hs hfree
  · next attempt decision commands hs =>
    dsimp only at h
    split at h
    · cases h
    · next hb =>
      split at h <;> cases h
      · exact .undo attempt _ (by simp [hs]) (by simp [hs])
      · next hc => exact .insert attempt decision commands hs hb hc
  · next decision persist hs =>
    obtain ⟨⟨db₁, persist'⟩, hp, he⟩ := Option.map_eq_some_iff.mp h
    cases he
    exact .persist decision persist persist' _ hs (Persist.effect_of_step hp)
  · cases h

/-- No statement of an open transaction changes what is committed. -/
theorem Effect.committed (h : Effect db a id now x db' x') :
    db'.threads.committed = db.threads.committed ∧
      db'.analyses.committed = db.analyses.committed := by
  cases h with
  | persist _ _ _ _ _ he => exact ⟨he.committed_threads, he.committed⟩
  | _ => simp [idleActives]

theorem Effect.consistent (h : Effect db a id now x db' x') (hc : db.threads.Consistent) :
    db'.threads.Consistent := by
  cases h with
  | undo => exact hc.rollback a
  | status _ _ _ _ t _ f hf _ hfree =>
    refine hc.write (fun r => ?_) hfree
    rcases hf with ⟨-, rfl⟩ | ⟨-, rfl⟩ <;> rfl
  | idle _ _ _ _ _ hfree => exact hc.writeAll (fun _ => rfl) hfree
  | insert _ _ _ _ hb hc' => exact hc.insert hb hc'
  | persist _ _ _ _ _ he =>
    cases he with
    | touch _ _ hfree => exact hc.write (fun _ => rfl) hfree
    | _ => exact hc
  | _ => exact hc

/-- A statement leaves the work of the other transactions alone. -/
theorem Effect.frame (h : Effect db a id now x db' x') {b : τ} (hb : b ≠ a) :
    db'.threads.updates b = db.threads.updates b ∧
      db'.threads.inserts b = db.threads.inserts b := by
  cases h with
  | undo => exact Table.rollback_work_of_ne hb
  | status => exact ⟨Table.write_updates_of_ne hb, Table.write_inserts_of_ne hb⟩
  | idle => exact ⟨Table.writeAll_updates_of_ne hb, Table.writeAll_inserts_of_ne hb⟩
  | insert => exact ⟨rfl, Table.insert_inserts_of_ne hb⟩
  | persist _ _ _ _ _ he =>
    cases he with
    | touch => exact ⟨Table.write_updates_of_ne hb, Table.write_inserts_of_ne hb⟩
    | _ => exact ⟨rfl, rfl⟩
  | _ => exact ⟨rfl, rfl⟩

end Effects

/-- The transaction binds the row it assembles to the job. -/
def Binds (x : Transaction) (jobId : Uuid) : Prop :=
  x.request.jobId = some jobId ∧ ∀ decision persist, x.stage = .resolved decision persist →
    persist.jobId = some jobId ∧
      ∀ analysis, persist.phase.row = some analysis → analysis.analysisJobId = some jobId

theorem Effect.binds {τ : Type*} [DecidableEq τ] {db db' : Tables τ} {a : τ} {id : Uuid}
    {now : Time} {x x' : Transaction} (h : Effect db a id now x db' x') {jobId : Uuid}
    (hb : x.Binds jobId) : x'.Binds jobId := by
  cases h with
  | persist decision persist persist' _ hs he =>
    refine ⟨hb.1, ?_⟩
    rintro _ _ ⟨⟩
    obtain ⟨hj, hrow⟩ := hb.2 decision persist hs
    refine ⟨he.jobId.trans hj, fun analysis hr => ?_⟩
    rcases he.row hr with hr | ⟨-, rfl⟩
    · exact hrow analysis hr
    · exact hj
  | enter =>
    refine ⟨hb.1, ?_⟩
    rintro _ _ ⟨⟩
    exact ⟨hb.1, by simp [Phase.row]⟩
  | undo attempt e =>
    refine ⟨hb.1, fun decision persist hs => ?_⟩
    cases e with
    | value => cases hs
    | concurrency =>
      by_cases hu : attempt.reresolveUsed = true <;> simp [goto, handle, hu] at hs
  | _ => exact ⟨hb.1, by simp [goto]⟩

/-- The analysis a transaction has inserted. -/
def stored (x : Transaction) : Option SessionAnalysis :=
  match x.stage with
  | .resolved _ persist => persist.phase.stored
  | _ => none

/-- Every statement keeps the table of analyses in order. -/
theorem Effect.holds {τ : Type*} [DecidableEq τ] {db db' : Tables τ} {a : τ} {id : Uuid}
    {now : Time} {x x' : Transaction} (h : Effect db a id now x db' x')
    {stored : τ → Option SessionAnalysis} (hh : Holds db.analyses stored)
    (hs : stored a = x.stored) : Holds db'.analyses (Function.update stored a x'.stored) := by
  cases h with
  | persist _ persist _ _ hp he =>
    exact hh.effect (hs.trans (by simp [Transaction.stored, hp])) he
  | undo attempt e hs' hr =>
    have hn : x.stored = none := by
      unfold Transaction.stored
      split
      · next hp => exact absurd hp (hr _ _)
      · rfl
    have hn' : (x.goto (handle attempt e)).stored = none := by
      cases e with
      | value => rfl
      | concurrency =>
        by_cases hu : attempt.reresolveUsed = true <;> simp [Transaction.stored, goto, handle, hu]
    rw [hn', ← hn, ← hs, Function.update_eq_self]
    exact hh
  | enter _ _ _ hp =>
    rw [Function.update_eq_self_iff.mpr (by
      simp [hs, Transaction.stored, hp, Transaction.enter, goto, Phase.stored])]
    exact hh
  | session _ hp | missing hp | decide _ hp | found _ _ _ _ _ _ hp | status _ _ _ _ _ _ _ _ hp
  | create _ _ _ _ _ _ hp | idle _ _ _ _ hp | insert _ _ _ hp =>
    rw [Function.update_eq_self_iff.mpr (by simp [hs, Transaction.stored, hp, goto])]
    exact hh

end Transaction

end LiberNovus.Analysis

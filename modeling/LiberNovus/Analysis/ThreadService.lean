import LiberNovus.Analysis.StateMachine

/-! The execution of a transition by the thread service, with no concurrent writer:
the table of threads is passed along, and an exception leaves it as it was, since
every attempt runs in a savepoint.

Proved: resolving a thread succeeds exactly for an open session or one that has an
active thread, and then leaves the returned thread the only active one of the
session and the threads of other sessions as they were. -/

namespace LiberNovus.Analysis

open Rows ReadCommitted Session

/-! ### Commands -/

/-- `values(status = "idle")`. -/
def AnalysisThread.idled (thread : AnalysisThread) : AnalysisThread :=
  { thread with status := .idle }

/-- `values(status = "closed")`. -/
def AnalysisThread.closed (thread : AnalysisThread) : AnalysisThread :=
  { thread with status := .closed }

def newThread (id sessionId : Uuid) (createdAt : Time) : AnalysisThread where
  id := id
  sessionId := sessionId
  status := .active
  createdAt := createdAt
  lastActivityAt := none
  lastAnalysisId := none

def conflictMessage : String := "Failed to create active thread due to concurrent update"

/-- `create_thread`: returns the new thread and the table. -/
def createThread (threads : List AnalysisThread) (sessionId id : Uuid) (createdAt : Time) :
    Except ResolveError (AnalysisThread × List AnalysisThread) :=
  let idled := threads.map fun thread => if thread.ActiveIn sessionId then thread.idled else thread
  let thread := newThread id sessionId createdAt
  if Violates idled thread then .error (.concurrency conflictMessage)
  else .ok (thread, idled ++ [thread])

def markIdle (threads : List AnalysisThread) (threadId : Uuid) : List AnalysisThread :=
  modify threads threadId AnalysisThread.idled

def closeThread (threads : List AnalysisThread) (threadId : Uuid) : List AnalysisThread :=
  modify threads threadId AnalysisThread.closed

/-- A command that has to name a thread. -/
def requireThreadId (name : String) (command : TransitionCommand) : Except ResolveError Uuid :=
  match command.threadId with
  | none => .error (.value (name ++ " requires thread_id"))
  | some threadId => .ok threadId

/-- One round of the loop of `apply_transition_tx`; the state is the thread found so
far and the table. -/
def applyCommand (sessionId id : Uuid) (createdAt : Time)
    (state : Option AnalysisThread × List AnalysisThread) (command : TransitionCommand) :
    Except ResolveError (Option AnalysisThread × List AnalysisThread) :=
  match command.commandType with
  | .continue => do
    let threadId ← requireThreadId "CONTINUE" command
    match get state.2 threadId with
    | none => .error (.concurrency s!"Thread {threadId} not found")
    | some thread => .ok (some thread, state.2)
  | .markIdle => do
    let threadId ← requireThreadId "MARK_IDLE" command
    .ok (state.1, markIdle state.2 threadId)
  | .closeThread => do
    let threadId ← requireThreadId "CLOSE_THREAD" command
    .ok (state.1, closeThread state.2 threadId)
  | .createNew => do
    let (thread, threads) ← createThread state.2 sessionId id createdAt
    .ok (some thread, threads)

def applyTransitionTx (threads : List AnalysisThread) (transition : NormalizedTransition)
    (sessionId id : Uuid) (createdAt : Time) :
    Except ResolveError (AnalysisThread × List AnalysisThread) := do
  let (thread, threads) ← transition.commands.foldlM (applyCommand sessionId id createdAt)
    (none, threads)
  match thread with
  | none => .error (.value "Transition did not resolve to a thread")
  | some thread => .ok (thread, threads)

/-- One round of the loop of `resolve_thread_for_analysis`: snapshots, decision,
transition, execution. `id` is the `uuid4` of a new thread, `createdAt` the start of
the transaction. -/
def resolveThread (sessions : List DreamSession) (threads : List AnalysisThread)
    (sessionId : Uuid) (mode : AnalysisMode) (now : Time) (id : Uuid) (createdAt : Time) :
    Except ResolveError (AnalysisThread × List AnalysisThread) := do
  let session ← buildSessionSnapshot sessions sessionId
  let thread := buildThreadSnapshot threads sessionId
  let decision := resolveThreadDecision session thread mode now
  applyTransitionTx threads (normalizedTransition decision) sessionId id createdAt

/-! ### What a resolved thread is -/

/-- `ix_analysis_threads_one_active_per_session`. -/
def OneActive (threads : List AnalysisThread) : Prop :=
  ∀ r ∈ threads, ∀ r' ∈ threads, slot r ≠ none → slot r' = slot r → r' = r

/-- `thread` is the only active thread of the session in `after`, and the threads of
other sessions are those of `before`. -/
structure Resolved (sessionId : Uuid) (before : List AnalysisThread) (thread : AnalysisThread)
    (after : List AnalysisThread) : Prop where
  mem : thread ∈ after
  active : thread.ActiveIn sessionId
  sole : ∀ r ∈ after, r.ActiveIn sessionId → r = thread
  others : after.filter (·.sessionId ≠ sessionId) = before.filter (·.sessionId ≠ sessionId)

theorem slot_of_activeIn {sessionId : Uuid} {thread : AnalysisThread}
    (h : thread.ActiveIn sessionId) : slot thread = some sessionId := by
  simp [slot, h.2, h.1]

theorem activeIn_of_slot {sessionId : Uuid} {thread : AnalysisThread}
    (h : slot thread = some sessionId) : thread.ActiveIn sessionId := by
  simp only [slot, Option.ite_none_right_eq_some, Option.some.injEq] at h
  exact ⟨h.2, h.1⟩

/-- Rewriting threads of one session leaves the others. -/
theorem filter_others_map {sessionId : Uuid} {f : AnalysisThread → AnalysisThread}
    {threads : List AnalysisThread}
    (hs : ∀ r ∈ threads, r.sessionId = sessionId → (f r).sessionId = sessionId)
    (hf : ∀ r ∈ threads, r.sessionId ≠ sessionId → f r = r) :
    (threads.map f).filter (·.sessionId ≠ sessionId) =
      threads.filter (·.sessionId ≠ sessionId) := by
  induction threads with
  | nil => rfl
  | cons r threads ih =>
    have ih' := ih (fun r hr => hs r (List.mem_cons_of_mem _ hr))
      fun r hr => hf r (List.mem_cons_of_mem _ hr)
    by_cases h : r.sessionId = sessionId
    · simpa [h, hs r List.mem_cons_self h] using ih'
    · simpa [h, hf r List.mem_cons_self h] using ih'

/-- `create_thread` with a new identifier succeeds. -/
theorem createThread_ok {threads : List AnalysisThread} {id : Uuid} (hid : get threads id = none)
    (sessionId : Uuid) (createdAt : Time) :
    ∃ after, createThread threads sessionId id createdAt =
        .ok (newThread id sessionId createdAt, after) ∧
      Resolved sessionId threads (newThread id sessionId createdAt) after := by
  set idled := threads.map fun thread =>
    if thread.ActiveIn sessionId then thread.idled else thread with hidled
  have hinactive : ∀ r ∈ idled, ¬ r.ActiveIn sessionId := by
    intro r hr
    obtain ⟨r₀, -, rfl⟩ := List.mem_map.mp hr
    split
    · exact fun h => by simp [AnalysisThread.ActiveIn, AnalysisThread.idled] at h
    · assumption
  have hkey : ∀ r ∈ idled, r.id ≠ id := by
    intro r hr he
    obtain ⟨r₀, hr₀, rfl⟩ := List.mem_map.mp hr
    refine get_eq_none.mp hid (List.mem_map.mpr ⟨r₀, hr₀, ?_⟩)
    rw [← he]
    split <;> rfl
  have hactive : (newThread id sessionId createdAt).ActiveIn sessionId := ⟨rfl, rfl⟩
  refine ⟨idled ++ [newThread id sessionId createdAt], ?_, ?_⟩
  · rw [createThread, if_neg]
    rintro ⟨r, hr, hk | ⟨-, hs⟩⟩
    · exact hkey r hr hk
    · exact hinactive r hr (activeIn_of_slot (hs.trans (slot_of_activeIn hactive)))
  · refine ⟨by simp, hactive, ?_, ?_⟩
    · intro r hr ha
      rcases List.mem_append.mp hr with hr | hr
      · exact absurd ha (hinactive r hr)
      · exact List.mem_singleton.mp hr
    · rw [List.filter_append, hidled, filter_others_map]
      · simp [newThread]
      · intro r _ hs
        split <;> exact hs
      · intro r _ hs
        exact if_neg fun h => hs h.1

/-- The same after one thread of the session was rewritten in place. -/
theorem createThread_modify_ok {threads : List AnalysisThread} (hu : DistinctKeys threads)
    {id : Uuid} (hid : get threads id = none) {sessionId : Uuid} {thread : AnalysisThread}
    (hmem : thread ∈ threads) (hs : thread.sessionId = sessionId)
    {f : AnalysisThread → AnalysisThread} (hkey : ∀ r, key (f r) = key r)
    (hsession : ∀ r, (f r).sessionId = r.sessionId) (createdAt : Time) :
    ∃ after, createThread (modify threads thread.id f) sessionId id createdAt =
        .ok (newThread id sessionId createdAt, after) ∧
      Resolved sessionId threads (newThread id sessionId createdAt) after := by
  have hid' : get (modify threads thread.id f) id = none := by
    rw [get_eq_none, Rows.modify, keys_map (key_ite hkey)]
    exact get_eq_none.mp hid
  obtain ⟨after, hok, hres⟩ := createThread_ok hid' sessionId createdAt
  refine ⟨after, hok, hres.mem, hres.active, hres.sole, hres.others.trans ?_⟩
  refine filter_others_map (fun r _ hr => ?_) fun r hr hne => if_neg fun hk => hne ?_
  · split
    · rw [hsession, hr]
    · exact hr
  · rw [List.inj_on_of_nodup_map hu hr hmem hk, hs]

/-! ### Resolution -/

section Resolution

variable {sessions : List DreamSession} {threads : List AnalysisThread} {session : DreamSession}
  {sessionId : Uuid} {mode : AnalysisMode} {now : Time} {id : Uuid} {createdAt : Time}

theorem resolveThread_eq (hs : get sessions sessionId = some session) :
    resolveThread sessions threads sessionId mode now id createdAt =
      applyTransitionTx threads (normalizedTransition (resolveThreadDecision
        ⟨session.id, session.status, some session.lastActivityAt⟩
        (buildThreadSnapshot threads sessionId) mode now)) sessionId id createdAt := by
  simp [resolveThread, buildSessionSnapshot, hs, bind, Except.bind]

omit session mode now in
/-- What each decision executes. -/
theorem applyTransitionTx_normalized (decision : DecisionDTO) :
    applyTransitionTx threads (normalizedTransition decision) sessionId id createdAt =
      match decision.action, decision.targetThreadId with
      | .createNew, _ => createThread threads sessionId id createdAt
      | .continue, some threadId =>
        match get threads threadId with
        | none => .error (.concurrency s!"Thread {threadId} not found")
        | some thread => .ok (thread, threads)
      | .markIdle, some threadId => createThread (markIdle threads threadId) sessionId id createdAt
      | .closeAndCreateNew, some threadId =>
        createThread (closeThread threads threadId) sessionId id createdAt
      | .continue, none => .error (.value "CONTINUE requires thread_id")
      | .markIdle, none => .error (.value "MARK_IDLE requires thread_id")
      | .closeAndCreateNew, none => .error (.value "CLOSE_THREAD requires thread_id") := by
  obtain ⟨action, target, rule⟩ := decision
  have hrun : ∀ commands, applyTransitionTx threads ⟨action, target, commands⟩ sessionId id createdAt =
      match commands.foldlM (applyCommand sessionId id createdAt) (none, threads) with
      | .error e => .error e
      | .ok (none, _) => .error (.value "Transition did not resolve to a thread")
      | .ok (some thread, threads) => .ok (thread, threads) := by
    intro commands
    unfold applyTransitionTx
    dsimp only
    cases commands.foldlM (applyCommand sessionId id createdAt) (none, threads) with
    | error => rfl
    | ok r => rcases r with ⟨_ | thread, threads⟩ <;> rfl
  cases action <;> cases target <;>
    simp only [normalizedTransition, actionCommandMap, List.map_cons, List.map_nil, hrun,
      List.foldlM_cons, List.foldlM_nil, applyCommand, requireThreadId, bind, Except.bind, pure,
      Except.pure, reduceCtorEq, if_true, if_false]
  case continue.some threadId => cases get threads threadId <;> rfl
  case markIdle.some threadId => cases createThread (markIdle threads threadId) sessionId id createdAt <;> rfl
  case closeAndCreateNew.some threadId =>
    cases createThread (closeThread threads threadId) sessionId id createdAt <;> rfl
  all_goals cases createThread threads sessionId id createdAt <;> rfl

/-- A closed session without an active thread: the first command names no thread. -/
theorem resolveThread_closed (hs : get sessions sessionId = some session)
    (hclosed : session.status ≠ .active) (hnone : getActiveThread threads sessionId = none) :
    resolveThread sessions threads sessionId mode now id createdAt =
      .error (.value "CLOSE_THREAD requires thread_id") := by
  rw [resolveThread_eq hs, applyTransitionTx_normalized]
  simp [buildThreadSnapshot, hnone, resolveThreadDecision, SessionSnapshot.Closed, hclosed]

/-- An open session without an active thread gets a new one. -/
theorem resolveThread_missing (hs : get sessions sessionId = some session)
    (hopen : session.status = .active) (hnone : getActiveThread threads sessionId = none) :
    resolveThread sessions threads sessionId mode now id createdAt =
      createThread threads sessionId id createdAt := by
  rw [resolveThread_eq hs, applyTransitionTx_normalized]
  simp [buildThreadSnapshot, hnone, resolveThreadDecision, SessionSnapshot.Closed, hopen]

/-- With an active thread, the decision is to continue it or to create a new one,
after idling or closing it if need be. -/
theorem resolveThread_existing {thread : AnalysisThread} (hs : get sessions sessionId = some session)
    (hsome : getActiveThread threads sessionId = some thread)
    (hget : get threads thread.id = some thread) (mode : AnalysisMode) (now : Time) (id : Uuid)
    (createdAt : Time) :
    resolveThread sessions threads sessionId mode now id createdAt = .ok (thread, threads) ∨
      ∃ f : AnalysisThread → AnalysisThread, (∀ r, (f r).id = r.id ∧ (f r).sessionId = r.sessionId) ∧
        resolveThread sessions threads sessionId mode now id createdAt =
          createThread (modify threads thread.id f) sessionId id createdAt := by
  have htarget := resolveThreadDecision_target
    ⟨session.id, session.status, some session.lastActivityAt⟩ (buildThreadSnapshot threads sessionId)
    mode now
  rw [resolveThread_eq hs, applyTransitionTx_normalized, htarget, buildThreadSnapshot, hsome]
  split
  · exact .inr ⟨fun r => r, fun _ => ⟨rfl, rfl⟩, by simp [Rows.modify]⟩
  · next threadId _ ht =>
    obtain rfl : thread.id = threadId := Option.some.inj ht
    exact .inl (by rw [hget])
  · next threadId _ ht =>
    obtain rfl : thread.id = threadId := Option.some.inj ht
    exact .inr ⟨AnalysisThread.idled, fun _ => ⟨rfl, rfl⟩, rfl⟩
  · next threadId _ ht =>
    obtain rfl : thread.id = threadId := Option.some.inj ht
    exact .inr ⟨AnalysisThread.closed, fun _ => ⟨rfl, rfl⟩, rfl⟩
  all_goals next ht => cases ht

/-- Resolving a thread succeeds, with everything a resolved thread is, exactly for an
open session or one that has an active thread. -/
theorem resolveThread_ok_iff (hs : get sessions sessionId = some session)
    (hu : DistinctKeys threads) (hone : OneActive threads) (hid : get threads id = none) :
    (∃ thread after, resolveThread sessions threads sessionId mode now id createdAt =
        .ok (thread, after) ∧ Resolved sessionId threads thread after) ↔
      session.status = .active ∨ ∃ thread ∈ threads, thread.ActiveIn sessionId := by
  cases hg : getActiveThread threads sessionId with
  | none =>
    have hnone := getActiveThread_eq_none.mp hg
    by_cases hopen : session.status = .active
    · refine iff_of_true ?_ (.inl hopen)
      obtain ⟨after, hok, hres⟩ := createThread_ok hid sessionId createdAt
      exact ⟨_, after, (resolveThread_missing hs hopen hg).trans hok, hres⟩
    · refine iff_of_false ?_ ?_
      · rintro ⟨thread, after, hok, -⟩
        rw [resolveThread_closed hs hopen hg] at hok
        cases hok
      · rintro (h | ⟨thread, hm, ha⟩)
        · exact hopen h
        · exact hnone thread hm ha
  | some thread =>
    obtain ⟨hm, ha⟩ := activeIn_of_getActiveThread hg
    refine iff_of_true ?_ (.inr ⟨thread, hm, ha⟩)
    rcases resolveThread_existing hs hg (get_of_mem hu hm) mode now id createdAt with
      hr | ⟨f, hf, hr⟩
    · refine ⟨thread, threads, hr, hm, ha, fun r hr' ha' => ?_, rfl⟩
      have hslot := slot_of_activeIn ha
      exact hone thread hm r hr' (by simp [hslot]) ((slot_of_activeIn ha').trans hslot.symm)
    · obtain ⟨after, hok, hres⟩ := createThread_modify_ok hu hid hm ha.1 (fun r => (hf r).1)
        (fun r => (hf r).2) createdAt
      exact ⟨_, after, hr.trans hok, hres⟩

end Resolution

/-- A stale open session: the first analysis creates a thread. -/
theorem resolveThread_ok_open :
    ∃ thread after, resolveThread [⟨7, 3, .active, 0, 0⟩] [] 7 .continue (seconds 300000) 1 0 =
      .ok (thread, after) ∧ Resolved 7 [] thread after :=
  (resolveThread_ok_iff rfl distinctKeys_nil (by simp [OneActive]) rfl).mpr (.inl rfl)

/-- A closed session that never had a thread cannot be analysed. -/
theorem resolveThread_raises :
    ¬ ∀ sessions threads session sessionId mode now id createdAt,
      get sessions sessionId = some session → DistinctKeys threads → OneActive threads →
      get threads id = none → ∃ thread after,
        resolveThread sessions threads sessionId mode now id createdAt = .ok (thread, after) ∧
          Resolved sessionId threads thread after := by
  intro h
  obtain ⟨thread, after, hok, -⟩ := h [⟨7, 3, .closed, 0, 0⟩] [] ⟨7, 3, .closed, 0, 0⟩ 7 .auto 0 1 0
    rfl distinctKeys_nil (by simp [OneActive]) rfl
  rw [resolveThread_closed rfl (by decide) rfl] at hok
  cases hok

end LiberNovus.Analysis

import LiberNovus.Analysis.ThreadService
import LiberNovus.Environment

/-! The analysis pipeline inside the transaction of its caller: `prepare_session_analysis`
up to the resolved thread, and the two phases of the assembly and of the persistence. A
conflict on the index of active threads is caught in its savepoint; the flushes of the
persistence have none around them. -/

namespace LiberNovus.Analysis.Pipeline

open Rows Session UnitOfWork Prompts

def defaultPromptVersion : String := "v2"

def dreamAnalysisVersion : String := "dream_v1"

section Resolution

variable (env : Environment) (sessionId : Uuid)

def createThread (reresolve : Bool) : Run AnalysisThread := do
  let thread := newThread (env.threadId reresolve) sessionId env.startedAt
  Tx.statement fun db => .ok ((), { db with
    threads := db.threads.map fun thread =>
      if thread.ActiveIn sessionId then thread.idled else thread })
  match ← Tx.attempt (env.flush (.createThread reresolve) fun db =>
    { db with threads := db.threads ++ [thread] }) with
  | .ok _ => pure thread
  | .error (.integrity _) => Tx.raise (.resolve (.concurrency conflictMessage))
  | .error e => Tx.fail e

/-- One round of the loop of `apply_transition_tx`. -/
def runCommand (reresolve : Bool) (thread : Option AnalysisThread) (command : TransitionCommand) :
    Run (Option AnalysisThread) :=
  if command.commandType = .createNew then do
    let thread ← createThread env sessionId reresolve
    pure (some thread)
  else Tx.statement fun db =>
    match applyCommand sessionId (env.threadId reresolve) env.startedAt (thread, db.threads)
      command with
    | .error e => .error (.resolve e)
    | .ok (thread, threads) => .ok (thread, { db with threads := threads })

/-- The loop of `apply_transition_tx`. -/
def runCommands (reresolve : Bool) :
    List TransitionCommand → Option AnalysisThread → Run (Option AnalysisThread)
  | [], thread => pure thread
  | command :: commands, thread => do
    let thread ← runCommand env sessionId reresolve thread command
    runCommands reresolve commands thread

def applyTransitionTx (transition : NormalizedTransition) (reresolve : Bool) :
    Run AnalysisThread := do
  match ← runCommands env sessionId reresolve transition.commands none with
  | none => Tx.raise (.resolve (.value "Transition did not resolve to a thread"))
  | some thread => pure thread

inductive AnalysisModeDecision where
  | newThread | continueThread
  deriving DecidableEq, Repr

def decisionToMode : DecisionAction → AnalysisModeDecision
  | .continue => .continueThread
  | _ => .newThread

/-- One round of the loop of `resolve_thread_for_analysis`. -/
def resolveRound (mode : AnalysisMode) (reresolve : Bool) :
    Run (AnalysisThread × AnalysisModeDecision) := do
  let session ← Tx.query fun db => buildSessionSnapshot db.sessions sessionId
  let session ← Tx.lift (session.mapError .resolve)
  let thread ← Tx.query fun db => buildThreadSnapshot db.threads sessionId
  let decision := resolveThreadDecision session thread mode env.resolvedAt
  let thread ← Tx.nested (applyTransitionTx env sessionId (normalizedTransition decision) reresolve)
  pure (thread, decisionToMode decision.action)

/-- `resolve_thread_for_analysis`: a concurrency error of the first round is resolved once
more. -/
def resolveThreadForAnalysis (mode : AnalysisMode) :
    Run (AnalysisThread × AnalysisModeDecision) := do
  match ← Tx.attempt (resolveRound env sessionId mode false) with
  | .ok resolved => pure resolved
  | .error (.raised (.resolve (.concurrency _))) => do
    env.others .conflict
    resolveRound env sessionId mode true
  | .error e => Tx.fail e

end Resolution

section Analysis

variable [CharTable] (env : Environment)

def loadAnalysisInput (sessionId : Uuid) : Run AnalysisInputContext := Tx.statement fun db =>
  match Session.loadAnalysisInput db.sessions db.dreams db.summaries sessionId env.summaryId
    env.startedAt with
  | .error e => .error (.session e)
  | .ok (context, summaries) => .ok (context, { db with summaries := summaries })

def prepareSessionAnalysis (sessionId : Uuid) (mode : AnalysisMode) :
    Run SessionAnalysisPrepareResult := do
  let context ← loadAnalysisInput env sessionId
  let raw ← env.generate (env.renderCompiledPrompt (analysisPrompt context)) defaultPromptVersion
    none
  let payload ← Tx.lift ((env.parseResponse raw.rawText).mapError .nonRetryable)
  let validated ← Tx.lift ((env.validateAnalysisOutput payload).mapError .nonRetryable)
  let (thread, _) ← resolveThreadForAnalysis env context.session.id mode
  pure
    { thread := thread
      sessionId := context.session.id
      userId := context.session.userId
      provider := raw.provider
      model := raw.model
      promptVersion := defaultPromptVersion
      analysisVersion := dreamAnalysisVersion
      analysisJson := validated
      rawResponse := some raw.rawText }

omit [CharTable] in
/-- The two checks of `persist_session_analysis_in_thread`. -/
def checkTarget (thread : AnalysisThread) (analysis : SessionAnalysis) : Except Exc Unit :=
  if analysis.threadId ≠ thread.id then
    .error (.other "assembled analysis thread_id does not match target thread")
  else if analysis.sessionId ≠ thread.sessionId then
    .error (.other "assembled analysis session_id does not match target thread session")
  else .ok ⟨⟩

omit [CharTable] in
def persistSessionAnalysisInThread (thread : AnalysisThread) (analysis : SessionAnalysis) :
    Run SessionAnalysis := do
  Tx.lift (checkTarget thread analysis)
  Tx.statement fun db => .ok ((), { db with
    analyses := db.analyses.map fun row =>
      if row.LatestOf thread.id then row.superseded else row })
  -- the UPDATE does not see the analyses that are committed while it waits for the row
  env.others .latest
  env.flush .insertAnalysis fun db => { db with analyses := db.analyses ++ [analysis] }
  env.flush .touchThread fun db =>
    { db with threads := modify db.threads thread.id (.persisted analysis.id env.persistedAt) }
  pure analysis

def runSessionAnalysis (sessionId : Uuid) (mode : AnalysisMode) : Run SessionAnalysis := do
  let prepared ← prepareSessionAnalysis env sessionId mode
  let analysis ← Tx.query fun db =>
    buildSessionAnalysisRow db.analyses prepared env.analysisId env.startedAt
  persistSessionAnalysisInThread env prepared.thread analysis

end Analysis

/-! ### Resolution without a conflict

The commands then do to the table of threads what the thread service does to it. -/

section Refinement

variable {env : Environment} {sessionId : Uuid} {reresolve : Bool} {s : AsyncSession Database}

theorem createThread_eq (hs : s.usable = true) (hc : env.conflict (.createThread reresolve) = none)
    {thread : AnalysisThread} {after : List AnalysisThread}
    (h : Analysis.createThread s.tables.threads sessionId (env.threadId reresolve) env.startedAt =
      .ok (thread, after)) :
    createThread env sessionId reresolve s =
      (.ok thread, { s with tables := { s.tables with threads := after } }) := by
  unfold Analysis.createThread at h
  dsimp only at h
  split at h
  · cases h
  · cases h
    refine (Tx.bind_ok (Tx.statement_ok hs rfl)).trans ?_
    exact Tx.bind_ok (Tx.attempt_ok (Environment.flush_ok (by exact hs) hc))

theorem runCommand_eq (hs : s.usable = true) (hc : env.conflict (.createThread reresolve) = none)
    {thread thread' : Option AnalysisThread} {command : TransitionCommand}
    {after : List AnalysisThread}
    (h : applyCommand sessionId (env.threadId reresolve) env.startedAt (thread, s.tables.threads)
      command = .ok (thread', after)) :
    runCommand env sessionId reresolve thread command s =
      (.ok thread', { s with tables := { s.tables with threads := after } }) := by
  unfold runCommand
  split
  · next hcreate =>
    simp only [applyCommand, hcreate, bind, Except.bind] at h
    split at h
    · cases h
    · next created hcreated =>
      cases h
      exact Tx.bind_ok (createThread_eq hs hc hcreated)
  · exact Tx.statement_ok hs (by rw [h])

theorem runCommands_eq (hc : env.conflict (.createThread reresolve) = none)
    {commands : List TransitionCommand} {thread thread' : Option AnalysisThread}
    {after : List AnalysisThread} (hs : s.usable = true)
    (h : commands.foldlM (applyCommand sessionId (env.threadId reresolve) env.startedAt)
      (thread, s.tables.threads) = .ok (thread', after)) :
    runCommands env sessionId reresolve commands thread s =
      (.ok thread', { s with tables := { s.tables with threads := after } }) := by
  induction commands generalizing thread s with
  | nil => cases h; rfl
  | cons command commands ih =>
    rw [List.foldlM_cons] at h
    cases hcommand : applyCommand sessionId (env.threadId reresolve) env.startedAt
      (thread, s.tables.threads) command with
    | error e => rw [hcommand] at h; cases h
    | ok next =>
      rw [hcommand] at h
      refine (Tx.bind_ok (runCommand_eq hs hc hcommand)).trans ?_
      exact ih (by exact hs) h

theorem applyTransitionTx_eq (hs : s.usable = true)
    (hc : env.conflict (.createThread reresolve) = none) {transition : NormalizedTransition}
    {thread : AnalysisThread} {after : List AnalysisThread}
    (h : Analysis.applyTransitionTx s.tables.threads transition sessionId (env.threadId reresolve)
      env.startedAt = .ok (thread, after)) :
    applyTransitionTx env sessionId transition reresolve s =
      (.ok thread, { s with tables := { s.tables with threads := after } }) := by
  unfold Analysis.applyTransitionTx at h
  cases hrun : transition.commands.foldlM
    (applyCommand sessionId (env.threadId reresolve) env.startedAt) (none, s.tables.threads) with
  | error e => rw [hrun] at h; cases h
  | ok last =>
    obtain ⟨_ | found, threads⟩ := last <;> rw [hrun] at h <;> cases h
    exact Tx.bind_ok (runCommands_eq hc hs hrun)

/-- A round that runs into no conflict resolves the thread the service resolves. -/
theorem resolveRound_eq (hs : s.usable = true) (hc : env.conflict (.createThread reresolve) = none)
    {mode : AnalysisMode} {thread : AnalysisThread} {after : List AnalysisThread}
    (h : resolveThread s.tables.sessions s.tables.threads sessionId mode env.resolvedAt
      (env.threadId reresolve) env.startedAt = .ok (thread, after)) :
    ∃ decided, resolveRound env sessionId mode reresolve s =
      (.ok (thread, decided), { s with tables := { s.tables with threads := after } }) := by
  unfold resolveThread at h
  cases hsession : buildSessionSnapshot s.tables.sessions sessionId with
  | error e => rw [hsession] at h; cases h
  | ok session =>
    rw [hsession] at h
    set decision := resolveThreadDecision session (buildThreadSnapshot s.tables.threads sessionId)
      mode env.resolvedAt with hd
    have happly : applyTransitionTx env sessionId (normalizedTransition decision) reresolve s =
        (.ok thread, { s with tables := { s.tables with threads := after } }) :=
      applyTransitionTx_eq hs hc h
    refine ⟨decisionToMode decision.action, ?_⟩
    refine (Tx.bind_ok (Tx.query_ok hs _)).trans ?_
    refine (Tx.bind_ok (by rw [hsession]; exact Tx.lift_ok session)).trans ?_
    refine (Tx.bind_ok (Tx.query_ok hs _)).trans ?_
    refine (Tx.bind_ok (Tx.nested_ok hs happly hs)).trans ?_
    rfl

end Refinement

/-! ### What the pipeline leaves alone -/

/-- The property says nothing about threads and analyses, and what others commit keeps it. -/
structure Ignores (env : Environment) (P : Database → Prop) : Prop where
  threads : ∀ db threads, P db → P { db with threads := threads }
  analyses : ∀ db analyses, P db → P { db with analyses := analyses }
  others : ∀ await db, P db → P (env.committing await db)

/-- The summary that an analysis of the session caches keeps the property. -/
def Caches [CharTable] (env : Environment) (sessionId : Uuid) (P : Database → Prop) : Prop :=
  ∀ db context summaries, P db →
    Session.loadAnalysisInput db.sessions db.dreams db.summaries sessionId env.summaryId
      env.startedAt = .ok (context, summaries) → P { db with summaries := summaries }

section Frame

variable {env : Environment} {sessionId : Uuid} {P : Database → Prop} {safe : Prop}

theorem ignores_sameJobs (db : Database) : Ignores env (SameJobs db) :=
  ⟨fun _ _ h => h, fun _ _ h => h, fun _ _ h => h⟩

theorem caches_sameJobs [CharTable] (db : Database) : Caches env sessionId (SameJobs db) :=
  fun _ _ _ h _ => h

variable (hP : Ignores env P)
include hP

theorem keeps_createThread (reresolve : Bool) :
    Tx.Keeps P False (createThread env sessionId reresolve) := by
  refine .bind (.statement fun _ _ _ h he => ?_) fun _ =>
    .bind (.attempt (.flush fun _ h => hP.threads _ _ h)) fun r => ?_
  · cases he
    exact hP.threads _ _ h
  · split
    · exact .pure _
    · exact .raise _
    · exact .fail _

theorem keeps_runCommand (reresolve : Bool) (thread : Option AnalysisThread)
    (command : TransitionCommand) :
    Tx.Keeps P False (runCommand env sessionId reresolve thread command) := by
  unfold runCommand
  split
  · exact .bind (keeps_createThread hP _) fun _ => .pure _
  · refine .statement fun _ _ _ h he => ?_
    split at he <;> cases he
    exact hP.threads _ _ h

theorem keeps_runCommands (reresolve : Bool) (commands : List TransitionCommand)
    (thread : Option AnalysisThread) :
    Tx.Keeps P False (runCommands env sessionId reresolve commands thread) := by
  induction commands generalizing thread with
  | nil => exact .pure _
  | cons command commands ih => exact .bind (keeps_runCommand hP _ _ _) fun thread => ih thread

/-- A savepoint is around every command. -/
theorem keeps_resolveRound (mode : AnalysisMode) (reresolve : Bool) :
    Tx.Keeps P safe (resolveRound env sessionId mode reresolve) := by
  refine .bind (.query _) fun _ => .bind (.lift _) fun _ => .bind (.query _) fun _ =>
    .bind (.nested (.bind (keeps_runCommands hP _ _ _) fun thread => ?_)) fun _ => .pure _
  cases thread
  · exact .raise _
  · exact .pure _

theorem keeps_resolveThreadForAnalysis (mode : AnalysisMode) :
    Tx.Keeps P safe (resolveThreadForAnalysis env sessionId mode) := by
  refine .bind (.attempt (keeps_resolveRound hP _ _)) fun r => ?_
  split
  · exact .pure _
  · exact .bind (Environment.keeps_others hP.others _) fun _ => keeps_resolveRound hP _ _
  · exact .fail _

omit hP in
theorem keeps_loadAnalysisInput [CharTable] (hc : Caches env sessionId P) :
    Tx.Keeps P safe (loadAnalysisInput env sessionId) := by
  refine .statement fun db _ _ h he => ?_
  split at he
  · cases he
  · next hload =>
    cases he
    exact hc db _ _ h hload

/-- Whatever the preparation raises, the session stays usable. -/
theorem keeps_prepareSessionAnalysis [CharTable] (hc : Caches env sessionId P)
    (mode : AnalysisMode) : Tx.Keeps P safe (prepareSessionAnalysis env sessionId mode) :=
  .bind (keeps_loadAnalysisInput hc) fun _ =>
    .bind (Environment.keeps_generate hP.others _ _ _) fun _ => .bind (.lift _) fun _ =>
    .bind (.lift _) fun _ => .bind (keeps_resolveThreadForAnalysis hP _) fun _ => .pure _

theorem keeps_persistSessionAnalysisInThread (thread : AnalysisThread)
    (analysis : SessionAnalysis) :
    Tx.Keeps P False (persistSessionAnalysisInThread env thread analysis) := by
  refine .bind (.lift _) fun _ => .bind (.statement fun _ _ _ h he => ?_) fun _ =>
    .bind (Environment.keeps_others hP.others _) fun _ =>
    .bind (.flush fun _ h => hP.analyses _ _ h) fun _ =>
    .bind (.flush fun _ h => hP.threads _ _ h) fun _ => .pure _
  cases he
  exact hP.analyses _ _ h

end Frame

/-! ### Persistence -/

section Persistence

variable {env : Environment} {thread : AnalysisThread} {analysis : SessionAnalysis}
  {s : AsyncSession Database}

/-- The tables once the analysis is stored. -/
def stored (env : Environment) (thread : AnalysisThread) (analysis : SessionAnalysis)
    (db : Database) : Database :=
  let cleared := env.committing .latest { db with
    analyses := db.analyses.map fun row =>
      if row.LatestOf thread.id then row.superseded else row }
  { cleared with
    analyses := cleared.analyses ++ [analysis]
    threads := modify cleared.threads thread.id (.persisted analysis.id env.persistedAt) }

/-- Neither flush of the persistence fails. -/
def Stores (env : Environment) : Prop :=
  env.conflict .insertAnalysis = none ∧ env.conflict .touchThread = none

instance (env : Environment) : Decidable (Stores env) := inferInstanceAs (Decidable (_ ∧ _))

theorem persist_refused {e : Exc} (h : checkTarget thread analysis = .error e) :
    persistSessionAnalysisInThread env thread analysis s = (.error (.raised e), s) :=
  Tx.bind_error (by rw [h, Tx.lift_error])

theorem persist_ok (hs : s.usable = true) (hc : checkTarget thread analysis = .ok ())
    (h : Stores env) :
    persistSessionAnalysisInThread env thread analysis s =
      (.ok analysis, { s with
        tables := stored env thread analysis s.tables
        committed := env.committing .latest s.committed }) := by
  refine (Tx.bind_ok (by rw [hc, Tx.lift_ok])).trans ?_
  refine (Tx.bind_ok (Tx.statement_ok hs rfl)).trans ?_
  refine (Tx.bind_ok (env.others_ok _ _)).trans ?_
  refine (Tx.bind_ok (Environment.flush_ok (by exact hs) h.1)).trans ?_
  exact Tx.bind_ok (Environment.flush_ok (by exact hs) h.2)

/-- No savepoint is around the two flushes: a conflict leaves the session unusable. -/
theorem persist_conflict (hs : s.usable = true) (hc : checkTarget thread analysis = .ok ())
    (h : ¬ Stores env) : Tx.Breaks (persistSessionAnalysisInThread env thread analysis) s := by
  refine .bind_of_ok (by rw [hc, Tx.lift_ok]) (.bind_of_ok (Tx.statement_ok hs rfl)
    (.bind_of_ok (env.others_ok _ _) ?_))
  by_cases hi : env.conflict .insertAnalysis = none
  · have ht : env.conflict .touchThread ≠ none := fun ht => h ⟨hi, ht⟩
    exact .bind_of_ok (Environment.flush_ok (by exact hs) hi)
      (.bind (Environment.breaks_flush (by exact hs) ht))
  · exact .bind (Environment.breaks_flush (by exact hs) hi)

end Persistence

end LiberNovus.Analysis.Pipeline

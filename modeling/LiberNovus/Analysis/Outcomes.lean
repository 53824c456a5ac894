import LiberNovus.Analysis.Pipeline

/-! How the pipeline can end, whatever the provider does and whichever flush fails. The thread
is resolved last, in a savepoint, so a preparation that raises has written nothing but the
cached summary; one that returns has resolved a thread of the session. -/

namespace LiberNovus.Analysis.Pipeline

open Rows Session UnitOfWork Prompts

/-! ### Resolved threads -/

/-- A thread before and after another one is created in the session. -/
structure Retired (sessionId : Uuid) (before after : AnalysisThread) : Prop where
  inactive : ¬ after.ActiveIn sessionId
  status : after.status = .active → before.status = .active
  id : after.id = before.id
  sessionId : after.sessionId = before.sessionId
  lastAnalysisId : after.lastAnalysisId = before.lastAnalysisId

/-- The thread that is resolved for the session, with the table after it: the active one goes
on, or a new one is created. -/
inductive Resolution (sessionId id : Uuid) (createdAt : Time) (before : List AnalysisThread) :
    AnalysisThread → List AnalysisThread → Prop
  | continued (thread : AnalysisThread) (hm : thread ∈ before) (ha : thread.ActiveIn sessionId) :
      Resolution sessionId id createdAt before thread before
  | created (f : AnalysisThread → AnalysisThread) (hf : ∀ r, Retired sessionId r (f r)) :
      Resolution sessionId id createdAt before (newThread id sessionId createdAt)
        (before.map f ++ [newThread id sessionId createdAt])

theorem Resolution.activeIn {sessionId id : Uuid} {createdAt : Time} {before after : List AnalysisThread}
    {thread : AnalysisThread} (h : Resolution sessionId id createdAt before thread after) :
    thread ∈ after ∧ thread.ActiveIn sessionId := by
  cases h with
  | continued _ hm ha => exact ⟨hm, ha⟩
  | created => exact ⟨by simp, rfl, rfl⟩

/-- What a command does to the thread it names. -/
def Rewrites (g : AnalysisThread → AnalysisThread) : Prop :=
  ∀ r, (g r).id = r.id ∧ (g r).sessionId = r.sessionId ∧ (g r).lastAnalysisId = r.lastAnalysisId ∧
    ((g r).status = .active → r.status = .active)

/-- Idling the active threads of a session retires all threads. -/
theorem retired_idled {sessionId : Uuid} {g : AnalysisThread → AnalysisThread} (hg : Rewrites g)
    (r : AnalysisThread) :
    Retired sessionId r (if (g r).ActiveIn sessionId then (g r).idled else g r) := by
  obtain ⟨hid, hsession, hlast, hstatus⟩ := hg r
  split
  · refine ⟨?_, ?_, hid, hsession, hlast⟩ <;> simp [AnalysisThread.idled, AnalysisThread.ActiveIn]
  · next hn => exact ⟨hn, hstatus, hid, hsession, hlast⟩

/-! ### Resolution -/

section Resolution

variable {env : Environment} {sessionId : Uuid} {reresolve : Bool} {s t : AsyncSession Database}
  {thread : AnalysisThread}

/-- `create_thread` after a command that has rewritten threads with `g`. -/
theorem createThread_ok (hs : s.usable = true) {g : AnalysisThread → AnalysisThread}
    (hg : Rewrites g)
    (h : createThread env sessionId reresolve
      { s with tables := { s.tables with threads := s.tables.threads.map g } } = (.ok thread, t)) :
    ∃ after, Resolution sessionId (env.threadId reresolve) env.startedAt s.tables.threads thread after ∧
      t = { s with tables := { s.tables with threads := after } } := by
  obtain ⟨u, s₁, h₁, h⟩ := Tx.bind_eq_ok.mp h
  rw [Tx.statement_ok (by exact hs) rfl] at h₁
  cases h₁
  by_cases hc : env.conflict (.createThread reresolve) = none
  · rw [Tx.bind_ok (Tx.attempt_ok (Environment.flush_ok (by exact hs) hc))] at h
    cases h
    exact ⟨_, .created _ (retired_idled hg), by simp [Function.comp_def]⟩
  · obtain ⟨message, hc⟩ := Option.ne_none_iff_exists'.mp hc
    rw [Tx.bind_ok (Tx.attempt_error (Environment.flush_conflict (by exact hs) hc))] at h
    cases h

/-- A list of commands that ends with `CREATE_NEW`. -/
theorem runCommands_create (hs : s.usable = true) {x : Option Uuid} (found : Option AnalysisThread)
    {g : AnalysisThread → AnalysisThread} (hg : Rewrites g)
    (h : runCommands env sessionId reresolve [⟨.createNew, x⟩] found
      { s with tables := { s.tables with threads := s.tables.threads.map g } } =
        (.ok (some thread), t)) :
    ∃ after, Resolution sessionId (env.threadId reresolve) env.startedAt s.tables.threads thread after ∧
      t = { s with tables := { s.tables with threads := after } } := by
  obtain ⟨found', s₁, h₁, h⟩ := Tx.bind_eq_ok.mp h
  cases h
  obtain ⟨created, s₂, h₂, h₁⟩ := Tx.bind_eq_ok.mp h₁
  cases h₁
  exact createThread_ok hs hg h₂

theorem rewrites_ite {k : Uuid} {g : AnalysisThread → AnalysisThread} (hg : Rewrites g) :
    Rewrites fun r => if key r = k then g r else r := by
  intro r
  dsimp only
  split
  · exact hg r
  · exact ⟨rfl, rfl, rfl, id⟩

/-- Every other command is a statement of the thread service. -/
theorem runCommand_ok (hs : s.usable = true) {command : TransitionCommand}
    (hne : command.commandType ≠ .createNew) {found found' : Option AnalysisThread}
    (h : runCommand env sessionId reresolve found command s = (.ok found', t)) :
    ∃ after, applyCommand sessionId (env.threadId reresolve) env.startedAt (found, s.tables.threads)
        command = .ok (found', after) ∧
      t = { s with tables := { s.tables with threads := after } } := by
  rw [runCommand, if_neg hne, Tx.statement, if_pos hs] at h
  cases happly : applyCommand sessionId (env.threadId reresolve) env.startedAt
    (found, s.tables.threads) command with
  | error e =>
    simp only [happly] at h
    cases h
  | ok state =>
    simp only [happly] at h
    cases h
    exact ⟨state.2, rfl, rfl⟩

/-- A command that rewrites the thread it names, and then `CREATE_NEW`. -/
theorem runCommands_rewrite (hs : s.usable = true) {command : TransitionCommand} {x : Option Uuid}
    (hne : command.commandType ≠ .createNew) {g : AnalysisThread → AnalysisThread} (hg : Rewrites g)
    (hcommand : ∀ found after, applyCommand sessionId (env.threadId reresolve) env.startedAt
      (none, s.tables.threads) command = .ok (found, after) →
        ∃ k, after = modify s.tables.threads k g)
    (h : runCommands env sessionId reresolve [command, ⟨.createNew, x⟩] none s =
      (.ok (some thread), t)) :
    ∃ after, Resolution sessionId (env.threadId reresolve) env.startedAt s.tables.threads thread after ∧
      t = { s with tables := { s.tables with threads := after } } := by
  obtain ⟨found, s₁, h₁, h⟩ := Tx.bind_eq_ok.mp h
  obtain ⟨after, happly, rfl⟩ := runCommand_ok hs hne h₁
  obtain ⟨k, rfl⟩ := hcommand found after happly
  exact runCommands_create hs found (rewrites_ite hg) h

/-- What the commands of a decision do, when its target is the active thread. -/
theorem runCommands_normalized (hs : s.usable = true) (hu : DistinctKeys s.tables.threads)
    {decision : DecisionDTO}
    (htarget : ∀ k ∈ decision.targetThreadId, ∃ r ∈ s.tables.threads, r.id = k ∧ r.ActiveIn sessionId)
    (h : runCommands env sessionId reresolve (normalizedTransition decision).commands none s =
      (.ok (some thread), t)) :
    ∃ after, Resolution sessionId (env.threadId reresolve) env.startedAt s.tables.threads thread after ∧
      t = { s with tables := { s.tables with threads := after } } := by
  obtain ⟨action, target, rule⟩ := decision
  cases action with
  | createNew =>
    refine runCommands_create (x := none) (g := fun r => r) hs none (fun _ => ⟨rfl, rfl, rfl, id⟩) ?_
    rw [List.map_id']
    exact h
  | «continue» =>
    obtain ⟨found, s₁, h₁, h⟩ := Tx.bind_eq_ok.mp h
    cases h
    obtain ⟨after, happly, rfl⟩ := runCommand_ok hs (by simp) h₁
    cases target with
    | none => cases happly
    | some k =>
      obtain ⟨r, hr, rfl, ha⟩ := htarget _ rfl
      have hget : get s.tables.threads r.id = some r := get_of_mem hu hr
      have hfound : applyCommand sessionId (env.threadId reresolve) env.startedAt
          (none, s.tables.threads) ⟨.continue, some r.id⟩ = .ok (some r, s.tables.threads) := by
        simp [applyCommand, requireThreadId, hget, bind, Except.bind]
      cases hfound.symm.trans happly
      exact ⟨_, .continued _ hr ha, rfl⟩
  | markIdle =>
    refine runCommands_rewrite hs (by simp) (g := AnalysisThread.idled)
      (fun _ => ⟨rfl, rfl, rfl, fun hs => by cases hs⟩) (fun found after happly => ?_) h
    cases target with
    | none => cases happly
    | some k =>
      cases happly
      exact ⟨k, rfl⟩
  | closeAndCreateNew =>
    refine runCommands_rewrite hs (by simp) (g := AnalysisThread.closed)
      (fun _ => ⟨rfl, rfl, rfl, fun hs => by cases hs⟩) (fun found after happly => ?_) h
    cases target with
    | none => cases happly
    | some k =>
      cases happly
      exact ⟨k, rfl⟩

theorem alone_createThread : Tx.Alone (createThread env sessionId reresolve) := by
  refine .bind (.statement _) fun _ => .bind (.attempt (.flush _ _)) fun r => ?_
  split
  · exact .pure _
  · exact .raise _
  · exact .fail _

theorem alone_runCommands (commands : List TransitionCommand) (found : Option AnalysisThread) :
    Tx.Alone (runCommands env sessionId reresolve commands found) := by
  induction commands generalizing found with
  | nil => exact .pure _
  | cons command commands ih =>
    refine .bind ?_ fun found => ih found
    unfold runCommand
    split
    · exact .bind alone_createThread fun _ => .pure _
    · exact .statement _

theorem alone_applyTransitionTx (transition : NormalizedTransition) :
    Tx.Alone (applyTransitionTx env sessionId transition reresolve) := by
  refine .bind (alone_runCommands _ _) fun found => ?_
  cases found
  · exact .raise _
  · exact .pure _

/-- The target of a decision is the active thread of the session. -/
theorem target_active {session : SessionSnapshot} {mode : AnalysisMode} {now : Time}
    {threads : List AnalysisThread} {k : Uuid}
    (h : k ∈ (resolveThreadDecision session (buildThreadSnapshot threads sessionId) mode
      now).targetThreadId) : ∃ r ∈ threads, r.id = k ∧ r.ActiveIn sessionId := by
  rw [resolveThreadDecision_target, buildThreadSnapshot] at h
  cases hg : getActiveThread threads sessionId with
  | none =>
    rw [hg] at h
    cases h
  | some r =>
    rw [hg] at h
    cases h
    obtain ⟨hm, ha⟩ := activeIn_of_getActiveThread hg
    exact ⟨r, hm, rfl, ha⟩

/-- A round that raises leaves everything as it was. -/
theorem resolveRound_cases (hs : s.usable = true) (hu : DistinctKeys s.tables.threads)
    (mode : AnalysisMode) :
    (∃ e, resolveRound env sessionId mode reresolve s = (.error e, s)) ∨
      ∃ thread after decided,
        Resolution sessionId (env.threadId reresolve) env.startedAt s.tables.threads thread after ∧
        resolveRound env sessionId mode reresolve s =
          (.ok (thread, decided), { s with tables := { s.tables with threads := after } }) := by
  cases hsession : buildSessionSnapshot s.tables.sessions sessionId with
  | error e =>
    refine .inl ⟨.raised (.resolve e), (Tx.bind_ok (Tx.query_ok hs _)).trans (Tx.bind_error ?_)⟩
    rw [hsession]
    exact Tx.lift_error _
  | ok session =>
    set decision := resolveThreadDecision session (buildThreadSnapshot s.tables.threads sessionId)
      mode env.resolvedAt with hdecision
    have hround : resolveRound env sessionId mode reresolve s =
        (Tx.nested (applyTransitionTx env sessionId (normalizedTransition decision) reresolve) >>=
          fun thread => pure (thread, decisionToMode decision.action)) s := by
      refine (Tx.bind_ok (Tx.query_ok hs _)).trans ?_
      refine (Tx.bind_ok (by rw [hsession]; exact Tx.lift_ok session)).trans ?_
      exact Tx.bind_ok (Tx.query_ok hs _)
    rw [hround]
    have halone : Tx.Alone (applyTransitionTx env sessionId (normalizedTransition decision) reresolve) :=
      alone_applyTransitionTx _
    rcases Tx.nested_cases halone hs with ⟨e, he⟩ | ⟨thread, t, ht, hnested, -⟩
    · exact .inl ⟨e, Tx.bind_error he⟩
    · obtain ⟨found, t', hrun, hfound⟩ := Tx.bind_eq_ok.mp ht
      cases found with
      | none => cases hfound
      | some found =>
        cases hfound
        obtain ⟨after, hres, rfl⟩ := runCommands_normalized hs hu
          (fun k hk => target_active hk) hrun
        exact .inr ⟨_, after, _, hres, Tx.bind_ok hnested⟩

end Resolution

/-! ### Preparation -/

/-- A property of the session that nothing before the resolution of the thread breaks. -/
structure Prepares [CharTable] (env : Environment) (sessionId : Uuid)
    (I : AsyncSession Database → Prop) : Prop where
  usable : ∀ s, I s → s.usable = true
  keys : ∀ s, I s → DistinctKeys s.tables.threads
  load : ∀ s context summaries, I s →
    Session.loadAnalysisInput s.tables.sessions s.tables.dreams s.tables.summaries sessionId
      env.summaryId env.startedAt = .ok (context, summaries) →
    I { s with tables := { s.tables with summaries := summaries } }
  wait : ∀ await s, I s → I (env.waited await s)

section Preparation

variable {env : Environment} {sessionId : Uuid} {I : AsyncSession Database → Prop}
  {s : AsyncSession Database}

theorem preserves_generate (hwait : ∀ await s, I s → I (env.waited await s))
    (prompt promptVersion : String) (temperature : Option ℚ) :
    Tx.Preserves I (env.generate prompt promptVersion temperature) :=
  .bind (.lift _) fun _ => .bind (.interleave (hwait .provider)) fun _ => .lift _

variable [CharTable]

theorem preserves_loadAnalysisInput (hI : Prepares env sessionId I) :
    Tx.Preserves I (loadAnalysisInput env sessionId) := by
  refine .statement fun s context after hs he => ?_
  split at he
  · cases he
  · next context' summaries hload =>
    cases he
    exact hI.load s _ summaries hs hload

/-- The context is that of the session. -/
theorem session_of_loadAnalysisInput {context : AnalysisInputContext} {t : AsyncSession Database}
    (h : loadAnalysisInput env sessionId s = (.ok context, t)) :
    get s.tables.sessions sessionId = some context.session := by
  unfold loadAnalysisInput Tx.statement at h
  split at h
  · dsimp only at h
    split at h
    · next a tables he =>
      cases h
      split at he
      · cases he
      · next hload =>
        cases he
        exact (loadAnalysisInput_ok hload).1
    · cases h
  · cases h

/-- The outcome of `resolve_thread_for_analysis`: a concurrency error of the first round is
resolved once more, after the commit it ran into. -/
theorem resolveThreadForAnalysis_cases (hI : Prepares env sessionId I) (hs : I s)
    (mode : AnalysisMode) :
    (∃ e t, I t ∧ resolveThreadForAnalysis env sessionId mode s = (.error e, t)) ∨
      ∃ t reresolve thread after decided, I t ∧
        Resolution sessionId (env.threadId reresolve) env.startedAt t.tables.threads thread after ∧
        resolveThreadForAnalysis env sessionId mode s =
          (.ok (thread, decided), { t with tables := { t.tables with threads := after } }) := by
  rcases resolveRound_cases (hI.usable s hs) (hI.keys s hs) mode with
    ⟨e, he⟩ | ⟨thread, after, decided, hres, hok⟩
  · by_cases hconcurrency : ∃ message, e = .raised (.resolve (.concurrency message))
    · obtain ⟨message, rfl⟩ := hconcurrency
      set t := env.waited .conflict s with ht
      have hagain : resolveThreadForAnalysis env sessionId mode s =
          resolveRound env sessionId mode true t :=
        (Tx.bind_ok (Tx.attempt_error he)).trans (Tx.bind_ok (env.others_ok .conflict s))
      rw [hagain]
      have hIt : I t := hI.wait .conflict s hs
      rcases resolveRound_cases (hI.usable t hIt) (hI.keys t hIt) mode with
        ⟨e, he⟩ | ⟨thread, after, decided, hres, hok⟩
      · exact .inl ⟨e, t, hIt, he⟩
      · exact .inr ⟨t, true, thread, after, decided, hIt, hres, hok⟩
    · refine .inl ⟨e, s, hs, (Tx.bind_ok (Tx.attempt_error he)).trans ?_⟩
      cases e with
      | raised e =>
        cases e with
        | resolve e =>
          cases e with
          | concurrency message => exact absurd ⟨message, rfl⟩ hconcurrency
          | value => rfl
        | _ => rfl
      | _ => rfl
  · exact .inr ⟨s, false, thread, after, decided, hs, hres, Tx.bind_ok (Tx.attempt_ok hok)⟩

/-- The outcome of `prepare_session_analysis`. -/
theorem prepareSessionAnalysis_cases (hI : Prepares env sessionId I) (hs : I s)
    (mode : AnalysisMode) :
    (∃ e t, I t ∧ prepareSessionAnalysis env sessionId mode s = (.error e, t)) ∨
      ∃ t reresolve prepared after, I t ∧
        Resolution sessionId (env.threadId reresolve) env.startedAt t.tables.threads prepared.thread
          after ∧
        prepared.sessionId = sessionId ∧
        prepareSessionAnalysis env sessionId mode s =
          (.ok prepared, { t with tables := { t.tables with threads := after } }) := by
  have hload := preserves_loadAnalysisInput hI s hs
  rcases hl : loadAnalysisInput env sessionId s with ⟨e | context, s₁⟩ <;> rw [hl] at hload
  · exact .inl ⟨e, s₁, hload, Tx.bind_error hl⟩
  have hid : context.session.id = sessionId := key_of_get (session_of_loadAnalysisInput hl)
  set prompt := env.renderCompiledPrompt (analysisPrompt context) with hprompt
  have hgen : I (env.generate prompt defaultPromptVersion none s₁).2 :=
    preserves_generate hI.wait prompt defaultPromptVersion none s₁ hload
  rcases hg : env.generate prompt defaultPromptVersion none s₁ with ⟨e | raw, s₂⟩ <;> rw [hg] at hgen
  · exact .inl ⟨e, s₂, hgen, (Tx.bind_ok hl).trans (Tx.bind_error hg)⟩
  cases hp : env.parseResponse raw.rawText with
  | error message =>
    refine .inl ⟨.raised (.nonRetryable message), s₂, hgen, (Tx.bind_ok hl).trans ?_⟩
    refine (Tx.bind_ok hg).trans (Tx.bind_error ?_)
    rw [hp]
    exact Tx.lift_error _
  | ok payload =>
  cases hv : env.validateAnalysisOutput payload with
  | error message =>
    refine .inl ⟨.raised (.nonRetryable message), s₂, hgen, (Tx.bind_ok hl).trans ?_⟩
    refine (Tx.bind_ok hg).trans ((Tx.bind_ok (by rw [hp]; exact Tx.lift_ok payload)).trans ?_)
    refine Tx.bind_error ?_
    rw [hv]
    exact Tx.lift_error _
  | ok validated =>
  have hrest : prepareSessionAnalysis env sessionId mode s =
      (resolveThreadForAnalysis env context.session.id mode >>= fun resolved => pure
        { thread := resolved.1
          sessionId := context.session.id
          userId := context.session.userId
          provider := raw.provider
          model := raw.model
          promptVersion := defaultPromptVersion
          analysisVersion := dreamAnalysisVersion
          analysisJson := validated
          rawResponse := some raw.rawText }) s₂ := by
    refine (Tx.bind_ok hl).trans ((Tx.bind_ok hg).trans ?_)
    refine (Tx.bind_ok (by rw [hp]; exact Tx.lift_ok payload)).trans ?_
    exact Tx.bind_ok (by rw [hv]; exact Tx.lift_ok validated)
  rw [hid] at hrest
  rw [hrest]
  rcases resolveThreadForAnalysis_cases hI hgen mode with
    ⟨e, t, ht, he⟩ | ⟨t, reresolve, thread, after, decided, ht, hres, hok⟩
  · exact .inl ⟨e, t, ht, Tx.bind_error he⟩
  · exact .inr ⟨t, reresolve, _, after, ht, hres, rfl, Tx.bind_ok hok⟩

end Preparation

/-! ### Persistence -/

section Persistence

variable {thread : AnalysisThread} {analysis : SessionAnalysis} {s : AsyncSession Database}

/-- A persistence that raises has refused the analysis, or leaves the session unusable. -/
theorem persist_cases (env : Environment) (thread : AnalysisThread) (analysis : SessionAnalysis)
    (hs : s.usable = true) :
    (∃ e, checkTarget thread analysis = .error e ∧
        persistSessionAnalysisInThread env thread analysis s = (.error (.raised e), s)) ∨
      (∃ e t, persistSessionAnalysisInThread env thread analysis s = (.error e, t) ∧
        t.usable = false) ∨
      persistSessionAnalysisInThread env thread analysis s =
        (.ok analysis, { s with
          tables := stored env thread analysis s.tables
          committed := env.committing .latest s.committed }) := by
  cases hc : checkTarget thread analysis with
  | error e => exact .inl ⟨e, rfl, persist_refused hc⟩
  | ok u =>
    by_cases h : Stores env
    · exact .inr (.inr (persist_ok hs hc h))
    · obtain ⟨e, t, he, ht⟩ := persist_conflict hs hc h
      exact .inr (.inl ⟨e, t, he, ht⟩)

/-- Others may commit while the row of the latest analysis is awaited. -/
theorem exposes_persist (env : Environment) (thread : AnalysisThread) (analysis : SessionAnalysis) :
    Tx.Exposes (fun c c' => c' = env.committing .latest c)
      (persistSessionAnalysisInThread env thread analysis) :=
  .bind (.lift _) fun _ => .bind (.statement _) fun _ => .bind (.interleave fun _ => rfl) fun _ =>
    .bind (.flush _ _) fun _ => .bind (.flush _ _) fun _ => .pure _

/-- The analysis of a thread of its session is not refused. -/
theorem checkTarget_ok (ht : analysis.threadId = thread.id) (hs : analysis.sessionId = thread.sessionId) :
    checkTarget thread analysis = .ok () := by
  simp [checkTarget, ht, hs]

end Persistence

end LiberNovus.Analysis.Pipeline

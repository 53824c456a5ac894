import LiberNovus.Analysis.Outcomes
import LiberNovus.Runtime.Settlement

/-! An execution of an analysis job that nobody disturbs: nobody commits anything meanwhile, and
the delivery does nothing. Its session is active, so everything but the reply of the provider
works out, and the reply alone decides how it ends. A reply that is accepted is still refused by
the database when its texts are none that can be stored, and then the flush fails. -/

namespace LiberNovus.Runtime

open Rows Session Analysis Analysis.Pipeline UnitOfWork Prompts

/-- A provider by its stream of outcomes, and the settings and functions that judge a reply.
`refusal` is the error of the database for the row of a reply and its validated text: a text
with a NUL, or JSON with a NaN. -/
structure Service where
  llmMaxAttempts : ℤ
  outcomes : ℕ → Except ProviderError ProviderRawResponse
  parseResponse : String → Except String String
  validateAnalysisOutput : String → Except String String
  refusal : ProviderRawResponse → (validated : String) → Option String

namespace Service

variable (service : Service)

/-- `max(1, settings.LLM_MAX_ATTEMPTS)`. -/
def limit : ℕ := (max 1 service.llmMaxAttempts).toNat

/-- The outcome of the requests of an execution. -/
def asked (called : ℕ) : Except ProviderError ProviderRawResponse :=
  requests (fun n => service.outcomes (called + n)) 1 (service.limit - 1)

/-- A text that parses and validates. -/
def Valid (outcome : Except ProviderError ProviderRawResponse) : Prop :=
  ∃ raw payload validated, outcome = .ok raw ∧ service.parseResponse raw.rawText = .ok payload ∧
    service.validateAnalysisOutput payload = .ok validated

/-- What an outcome makes of the preparation. -/
def reply (outcome : Except ProviderError ProviderRawResponse) :
    Except Exc (ProviderRawResponse × String) := do
  let raw ← outcome.mapError Exc.ofProvider
  let payload ← (service.parseResponse raw.rawText).mapError Exc.nonRetryable
  let validated ← (service.validateAnalysisOutput payload).mapError Exc.nonRetryable
  .ok (raw, validated)

/-- A reply whose texts the database takes, if it parses and validates. -/
def Storable (outcome : Except ProviderError ProviderRawResponse) : Prop :=
  ∀ r, service.reply outcome = .ok r → service.refusal r.1 r.2 = none

/-- The error of the flush that inserts the analysis. -/
def insertError (called : ℕ) : Option String :=
  match service.reply (service.asked called) with
  | .ok r => service.refusal r.1 r.2
  | .error _ => none

/-- The environment of an execution, when the provider has been called `called` times; `draws`
are the identifiers and the readings of the clock. -/
def environment (called : ℕ) (draws : Environment) : Environment :=
  { draws with
    llmMaxAttempts := service.llmMaxAttempts
    getProvider := .ok ⟨fun _ _ _ n => service.outcomes (called + n)⟩
    parseResponse := service.parseResponse
    validateAnalysisOutput := service.validateAnalysisOutput
    conflict := fun
      | .insertAnalysis => service.insertError called
      | _ => none
    meanwhile := fun _ db => db }

variable {service}

theorem limit_pos : 0 < service.limit := by
  unfold limit
  omega

theorem reply_ok_iff {outcome : Except ProviderError ProviderRawResponse} :
    (∃ r, service.reply outcome = .ok r) ↔ service.Valid outcome := by
  unfold reply Valid
  cases outcome with
  | error e => simp [Except.mapError, bind, Except.bind]
  | ok raw =>
    cases hp : service.parseResponse raw.rawText with
    | error message => simp [Except.mapError, bind, Except.bind, hp]
    | ok payload =>
      cases hv : service.validateAnalysisOutput payload <;>
        simp [Except.mapError, bind, Except.bind, hp, hv]

/-- What the preparation raises is retryable exactly for a transport error. -/
theorem reply_error {outcome : Except ProviderError ProviderRawResponse} {e : Exc}
    (h : service.reply outcome = .error e) :
    (∃ message, outcome = .error (.transport message) ∧ e = .retryable message) ∨
      ¬ Transport outcome ∧ ∃ message, e = .nonRetryable message ∨ e = .other message := by
  unfold reply at h
  cases outcome with
  | error e' =>
    cases h
    cases e' with
    | transport message => exact .inl ⟨message, rfl, rfl⟩
    | terminal message => exact .inr ⟨by simp [Transport], message, .inl rfl⟩
    | other message => exact .inr ⟨by simp [Transport], message, .inr rfl⟩
  | ok raw =>
    refine .inr ⟨by simp [Transport], ?_⟩
    simp only [Except.mapError, bind, Except.bind] at h
    cases hp : service.parseResponse raw.rawText with
    | error message =>
      simp only [hp, Except.error.injEq] at h
      exact ⟨message, .inl h.symm⟩
    | ok payload =>
      simp only [hp] at h
      cases hv : service.validateAnalysisOutput payload with
      | error message =>
        simp only [hv, Except.error.injEq] at h
        exact ⟨message, .inl h.symm⟩
      | ok validated =>
        simp only [hv] at h
        cases h

end Service

/-! ### The requests -/

section Requests

variable [CharTable] (env : Environment) (job : AnalysisJob) (db : Database)

/-- How often the execution of an analysis job calls the provider: not at all if it raises
before. -/
def providerCalls : ℕ :=
  match Session.loadAnalysisInput db.sessions db.dreams db.summaries job.sessionId env.summaryId
      env.startedAt, env.getProvider with
  | .ok (context, _), .ok llm =>
    requested (llm.generate (env.renderCompiledPrompt (analysisPrompt context))
      defaultPromptVersion none) 1 ((max 1 env.llmMaxAttempts).toNat - 1)
  | _, _ => 0

end Requests

/-! ### The preparation -/

section Preparation

variable [CharTable] (service : Service) (called : ℕ) (draws : Environment) {db : Database}
  {session : DreamSession}

/-- The input of an existing session can be loaded. -/
theorem loadAnalysisInput_exists {sessionId : Uuid} (hs : get db.sessions sessionId = some session)
    (id : Uuid) (createdAt : Time) :
    ∃ context summaries, context.session = session ∧
      Session.loadAnalysisInput db.sessions db.dreams db.summaries sessionId id createdAt =
        .ok (context, summaries) := by
  have hcached : ∃ r, cachedSummary db.sessions db.dreams db.summaries sessionId id createdAt =
      .ok r := by
    unfold cachedSummary
    split
    · exact ⟨_, rfl⟩
    · next hnone =>
      have hid : session.id = sessionId := key_of_get hs
      simp only [buildSessionSummary, hs, bind, Except.bind]
      exact ⟨_, saveSessionSummary_new (by rwa [hid])⟩
  obtain ⟨⟨summary, summaries⟩, hcached⟩ := hcached
  refine ⟨⟨session, summary, sessionDreams db.dreams sessionId⟩, summaries, rfl, ?_⟩
  simp only [Session.loadAnalysisInput, hs, hcached, bind, Except.bind]

omit [CharTable] in
/-- The thread of an active session can be resolved. -/
theorem resolveThreadForAnalysis_active {s : AsyncSession Database} {sessionId : Uuid}
    (hs : get s.tables.sessions sessionId = some session) (hactive : session.status = .active)
    (hu : DistinctKeys s.tables.threads) (hid : get s.tables.threads (draws.threadId false) = none)
    (husable : s.usable = true) (mode : AnalysisMode) :
    ∃ thread after decided, thread.sessionId = sessionId ∧
      resolveThreadForAnalysis (service.environment called draws) sessionId mode s =
        (.ok (thread, decided), { s with tables := { s.tables with threads := after } }) := by
  set env := service.environment called draws with henv
  have hresolve : ∃ thread after, resolveThread s.tables.sessions s.tables.threads sessionId mode
      env.resolvedAt (env.threadId false) env.startedAt = .ok (thread, after) := by
    cases hg : getActiveThread s.tables.threads sessionId with
    | none =>
      obtain ⟨after, hok, -⟩ := createThread_ok hid sessionId env.startedAt
      exact ⟨_, after, (resolveThread_missing hs hactive hg).trans hok⟩
    | some thread =>
      obtain ⟨hm, ha⟩ := activeIn_of_getActiveThread hg
      rcases resolveThread_existing hs hg (get_of_mem hu hm) mode env.resolvedAt
        (env.threadId false) env.startedAt with hr | ⟨f, hf, hr⟩
      · exact ⟨_, _, hr⟩
      · obtain ⟨after, hok, -⟩ := createThread_modify_ok hu hid hm ha.1 (fun r => (hf r).1)
          (fun r => (hf r).2) env.startedAt
        exact ⟨_, after, hr.trans hok⟩
  obtain ⟨thread, after, hok⟩ := hresolve
  have hround : ∃ decided, resolveRound env sessionId mode false s =
      (.ok (thread, decided), { s with tables := { s.tables with threads := after } }) :=
    resolveRound_eq husable rfl hok
  obtain ⟨decided, hround⟩ := hround
  have hcases : (∃ e, resolveRound env sessionId mode false s = (.error e, s)) ∨ _ :=
    resolveRound_cases husable hu mode
  refine ⟨thread, after, decided, ?_, Tx.bind_ok (Tx.attempt_ok hround)⟩
  rcases hcases with ⟨e, he⟩ | ⟨thread', after', decided', hres, hok'⟩
  · cases hround.symm.trans he
  · cases hround.symm.trans hok'
    exact hres.activeIn.2.1

omit [CharTable] in
theorem generate_undisturbed (s : AsyncSession Database) (prompt promptVersion : String) :
    (service.environment called draws).generate prompt promptVersion none s =
      Tx.lift ((service.asked called).mapError .ofProvider) s := by
  refine (Tx.bind_ok (Tx.lift_ok _)).trans ?_
  exact Tx.bind_ok (Environment.others_ok _ _ _)

/-- The session of the execution once a summary is there. -/
def loaded (db : Database) (summaries : List SessionSummary) : AsyncSession Database :=
  ⟨{ db with summaries := summaries }, db, true⟩

variable {sessionId : Uuid} (hs : get db.sessions sessionId = some session)
include hs

/-- The preparation, on the reply of the provider. -/
theorem prepareSessionAnalysis_undisturbed (mode : AnalysisMode) :
    ∃ summaries userId, prepareSessionAnalysis (service.environment called draws) sessionId mode
        (.opened db) =
      (Tx.lift (service.reply (service.asked called)) >>= fun reply =>
        resolveThreadForAnalysis (service.environment called draws) sessionId mode >>=
          fun resolved => pure
            { thread := resolved.1
              sessionId := sessionId
              userId := userId
              provider := reply.1.provider
              model := reply.1.model
              promptVersion := defaultPromptVersion
              analysisVersion := dreamAnalysisVersion
              analysisJson := reply.2
              rawResponse := some reply.1.rawText }) (loaded db summaries) := by
  set env := service.environment called draws with henv
  obtain ⟨context, summaries, hsession, hload⟩ :=
    loadAnalysisInput_exists hs env.summaryId env.startedAt
  have hid : context.session.id = sessionId := by rw [hsession]; exact key_of_get hs
  have hl : loadAnalysisInput env sessionId (.opened db) = (.ok context, loaded db summaries) :=
    Tx.statement_ok rfl (by simp only [AsyncSession.opened, hload])
  have hg : env.generate (env.renderCompiledPrompt (analysisPrompt context)) defaultPromptVersion
      none (loaded db summaries) = _ :=
    generate_undisturbed service called draws (loaded db summaries) _ _
  refine ⟨summaries, context.session.userId, (Tx.bind_ok hl).trans ?_⟩
  unfold Service.reply
  cases houtcome : service.asked called with
  | error e =>
    rw [houtcome] at hg
    rw [Tx.bind_error hg]
    rfl
  | ok raw =>
    rw [houtcome] at hg
    refine (Tx.bind_ok hg).trans ?_
    have hparse : env.parseResponse raw.rawText = service.parseResponse raw.rawText := rfl
    rw [hparse]
    cases hp : service.parseResponse raw.rawText with
    | error message =>
      simp only [Except.mapError, bind, Except.bind, hp]
      rfl
    | ok payload =>
      refine (Tx.bind_ok (Tx.lift_ok payload)).trans ?_
      have hvalidate : env.validateAnalysisOutput payload = service.validateAnalysisOutput payload :=
        rfl
      rw [hvalidate]
      cases hv : service.validateAnalysisOutput payload with
      | error message =>
        simp only [Except.mapError, bind, Except.bind, hp, hv]
        rfl
      | ok validated =>
        simp only [Except.mapError, bind, Except.bind, hp, hv]
        rw [hid]
        rfl

end Preparation

/-! ### The execution -/

section Execution

variable [CharTable] (service : Service) (called : ℕ) (draws : Environment) {db : Database}
  {session : DreamSession} {job row : AnalysisJob}

/-- The job of an active session is running. -/
structure Executable (db : Database) (job row : AnalysisJob) (session : DreamSession) : Prop where
  stored : get db.jobs job.id = some row
  running : row.status = .running
  analysis : job.dreamId = none
  found : get db.sessions job.sessionId = some session
  active : session.status = .active
  threads : DistinctKeys db.threads

theorem providerCalls_undisturbed (hs : get db.sessions job.sessionId = some session) :
    providerCalls (service.environment called draws) job db =
      requested (fun n => service.outcomes (called + n)) 1 (service.limit - 1) := by
  obtain ⟨context, summaries, -, hload⟩ :=
    loadAnalysisInput_exists hs draws.summaryId draws.startedAt
  have hload' : Session.loadAnalysisInput db.sessions db.dreams db.summaries job.sessionId
      (service.environment called draws).summaryId (service.environment called draws).startedAt =
        .ok (context, summaries) := hload
  unfold providerCalls
  rw [hload']
  rfl

/-- A reply that raises is handled, and nothing else but the summary is written. -/
theorem execute_refused (h : Executable db job row session) {e : Exc}
    (he : service.reply (service.asked called) = .error e) :
    ∃ summaries, (execute (service.environment called draws) noDelivery job db).2 =
      { db with
        summaries := summaries
        jobs := modify db.jobs job.id
          (handleFailure (service.environment called draws) job (.raised e)).write } := by
  obtain ⟨summaries, userId, hprepare⟩ :=
    prepareSessionAnalysis_undisturbed service called draws h.found job.mode
  rw [he] at hprepare
  have hne : (.raised e : RunError) ≠ .raised .memoryOnlyComplete := by
    rcases Service.reply_error he with ⟨message, -, rfl⟩ | ⟨-, message, rfl | rfl⟩ <;> simp
  have hphase : executeWithJobBinding (service.environment called draws) job (.opened db) =
      (.error (.raised e), loaded db summaries) := by
    rw [executeWithJobBinding_analysis h.analysis]
    exact Tx.bind_error (Tx.bind_error hprepare)
  exact ⟨summaries, by rw [execute_handled h.stored h.running hne hphase rfl]; rfl⟩

section Answered

variable (h : Executable db job row session) (hid : get db.threads (draws.threadId false) = none)
  {r : ProviderRawResponse × String} (hr : service.reply (service.asked called) = .ok r)
include h hid hr

/-- A valid reply is assembled. -/
theorem assembleRuntimeAnalysis_answered : ∃ analysis thread s,
    assembleRuntimeAnalysis (service.environment called draws) job (.opened db) =
        (.ok (analysis, thread), s) ∧
      checkTarget thread analysis = .ok () := by
  set env := service.environment called draws with henv
  obtain ⟨summaries, userId, hprepare⟩ :=
    prepareSessionAnalysis_undisturbed service called draws h.found job.mode
  have hresolve := resolveThreadForAnalysis_active service called draws h.found h.active
    h.threads hid (s := loaded db summaries) rfl job.mode
  obtain ⟨thread, after, decided, hthread, hresolve⟩ := hresolve
  rw [hr] at hprepare
  have hprepared := (hprepare.trans (Tx.bind_ok (Tx.lift_ok r))).trans (Tx.bind_ok hresolve)
  set t : AsyncSession Database := ⟨{ db with summaries := summaries, threads := after }, db, true⟩
    with ht
  obtain ⟨prepared, hprepared, hsession⟩ : ∃ prepared, prepareSessionAnalysis env job.sessionId
      job.mode (.opened db) = (.ok prepared, t) ∧ prepared.sessionId = prepared.thread.sessionId :=
    ⟨_, hprepared, hthread.symm⟩
  set analysis : SessionAnalysis := { buildSessionAnalysisRow t.tables.analyses prepared
    env.analysisId env.startedAt with analysisJobId := some job.id } with hanalysis
  have hassemble : assembleRuntimeAnalysis env job (.opened db) =
      (.ok (analysis, prepared.thread), t) := by
    refine (Tx.bind_ok hprepared).trans ((Tx.bind_ok (Tx.query_ok rfl _)).trans ?_)
    exact Tx.bind_ok (by rw [bindJob_build]; exact Tx.lift_ok _)
  exact ⟨analysis, prepared.thread, t, hassemble, checkTarget_ok rfl hsession⟩

omit [CharTable] h hid in
theorem stores_iff : Stores (service.environment called draws) ↔ service.refusal r.1 r.2 = none := by
  have hinsert : (service.environment called draws).conflict .insertAnalysis =
      service.refusal r.1 r.2 := by
    show service.insertError called = _
    rw [Service.insertError, hr]
  rw [Stores, hinsert]
  exact and_iff_left rfl

/-- A valid reply that can be stored completes the job. -/
theorem execute_answered (hstorable : service.refusal r.1 r.2 = none) :
    ∃ threadId now, (execute (service.environment called draws) noDelivery job db).2.jobs =
      modify db.jobs job.id (AnalysisJob.completed threadId now) := by
  obtain ⟨analysis, thread, s, hassemble, hcheck⟩ :=
    assembleRuntimeAnalysis_answered service called draws h hid hr
  obtain ⟨u, hu, -, hphase⟩ := analysis_stored h.analysis hassemble hcheck
    ((stores_iff service called draws hr).mpr hstorable)
  refine ⟨some analysis.threadId, (service.environment called draws).finishedAt, ?_⟩
  rw [execute_analysed h.analysis h.stored h.running hphase hu]
  rfl

/-- One that cannot be stored leaves the job as it was acquired. -/
theorem execute_unstored (hrefused : service.refusal r.1 r.2 ≠ none) :
    (execute (service.environment called draws) noDelivery job db).2.jobs = db.jobs := by
  obtain ⟨analysis, thread, s, hassemble, hcheck⟩ :=
    assembleRuntimeAnalysis_answered service called draws h hid hr
  refine execute_broken (analysis_conflict h.analysis hassemble hcheck fun hstores => ?_)
  exact hrefused ((stores_iff service called draws hr).mp hstores)

end Answered

end Execution

end LiberNovus.Runtime

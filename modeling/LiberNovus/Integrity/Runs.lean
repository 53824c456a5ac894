import LiberNovus.Integrity.Executions
import LiberNovus.Journal.Isolation
import LiberNovus.Runtime.Writes
import LiberNovus.Scripts.Cleanup
import LiberNovus.Session.Agreement

/-! The foreign keys over whole runs of the bot, with the endpoint that enqueues an analysis and
the cleanup script between its operations.

Proved: no operation of a run leaves a reference without its target, whatever rows from before
the traces there are and whatever the script is called for; and where the tables were empty at
first, the script has taken nothing: a session without a trace holds a dream that a turn in
another session is about. -/

namespace LiberNovus.Integrity

open Rows Runs ForeignKeys UnitOfWork Session Dialogue Memory Analysis Analysis.Pipeline
  LiberNovus.Runtime Scripts
open ThreadHistory (alone)

/-! ### The system -/

/-- `analyze_session_async_endpoint`: the session is looked at by the database alone. -/
def analyzeSessionAsync (settings : Settings) (sessionId id : Uuid) (mode : AnalysisMode) (now : Time)
    (db : Database) : Except Reference Database :=
  schema.check { db with jobs := db.jobs ++ [newJob id sessionId settings.llmProvider
    settings.defaultModel settings.analysisJobMaxAttempts mode none now] }

inductive Event where
  | operation (e : Journal.Event)
  | analyzeAsync (sessionId id : Uuid) (mode : AnalysisMode) (now : Time)
  | cleanup (execute : Bool)

/-- One operation of the bot, one request, or one call of the script. -/
def step [CharTable] (settings : Settings) (db : Database) : Event → Option Database
  | .operation e => Journal.step settings db e
  | .analyzeAsync sessionId id mode now =>
    match analyzeSessionAsync settings sessionId id mode now db with
    | .ok after => some after
    | .error _ => some db
  | .cleanup execute => some (cleanupLegacySessions execute db).2

/-! ### Messages -/

section Messages

variable {db after : Database}

/-- The session has a trace, or a dream of it is one that a turn is about. -/
def Recorded (sessionId : Uuid) (db : Database) : Prop :=
  (∃ trace ∈ db.traces, trace.sessionId = some sessionId) ∨
    ∃ dream ∈ db.dreams, dream.sessionId = sessionId ∧ ∃ turn ∈ db.turns, turn.dreamId = some dream.id

/-- New sessions on record, and new dreams, jobs, turns and traces, whose targets are there. -/
structure Intake (db after : Database) : Prop where
  sessions : Parent.sessions.keys db ⊆ Parent.sessions.keys after
  recorded : ∀ k, InSession k after → InSession k db ∨ Recorded k after
  dreams : ∃ new, after.dreams = db.dreams ++ new ∧
    ∀ dream ∈ new, InSession dream.sessionId after
  jobs : ∃ new, after.jobs = db.jobs ++ new ∧ ∀ job ∈ new,
    InSession job.sessionId after ∧ (∀ k ∈ job.dreamId, HasDream k after) ∧ job.threadId = none
  turns : ∃ new, after.turns = db.turns ++ new ∧ ∀ turn ∈ new,
    InSession turn.sessionId after ∧ ∀ k ∈ turn.dreamId, HasDream k after
  traces : ∃ new, after.traces = db.traces ++ new ∧ ∀ trace ∈ new,
    (∀ k ∈ trace.sessionId, InSession k after) ∧ (∀ k ∈ trace.dreamId, HasDream k after) ∧
      ∀ k ∈ trace.jobId, k ∈ Parent.jobs.keys after
  summaries : after.summaries = db.summaries
  threads : after.threads = db.threads
  analyses : after.analyses = db.analyses
  memories : after.memories = db.memories

theorem mem_map_of_append {ρ β : Type} {rows new after : List ρ} {column : ρ → β} {b : β}
    (hrows : after = rows ++ new) (h : b ∈ after.map column) :
    b ∈ rows.map column ∨ ∃ row ∈ new, column row = b := by
  subst hrows
  rw [List.map_append, List.mem_append] at h
  exact h.imp_right List.mem_map.mp

theorem mem_filterMap_of_append {ρ β : Type} {rows new after : List ρ} {column : ρ → Option β} {b : β}
    (hrows : after = rows ++ new) (h : b ∈ after.filterMap column) :
    b ∈ rows.filterMap column ∨ ∃ row ∈ new, b ∈ column row := by
  subst hrows
  rw [List.filterMap_append, List.mem_append] at h
  exact h.imp_right List.mem_filterMap.mp

theorem keys_subset_of_append {ρ β : Type} {rows new after : List ρ} {column : ρ → β}
    (hrows : after = rows ++ new) : rows.map column ⊆ after.map column := by
  subst hrows
  rw [List.map_append]
  exact List.subset_append_left _ _

theorem Intake.grows (h : Intake db after) : schema.Grows db after := by
  obtain ⟨newDreams, hdreams, hdream⟩ := h.dreams
  obtain ⟨newJobs, hjobs, hjob⟩ := h.jobs
  obtain ⟨newTurns, hturns, hturn⟩ := h.turns
  obtain ⟨newTraces, htraces, htrace⟩ := h.traces
  refine grows_of_keys (fun parent => ?_) fun ref k hk => ?_
  · cases parent with
    | sessions => exact h.sessions
    | dreams => exact keys_subset_of_append hdreams
    | jobs => exact keys_subset_of_append hjobs
    | threads => simp [Parent.keys, h.threads]
    | analyses => simp [Parent.keys, h.analyses]
  · cases ref
    case dreamSession =>
      refine (mem_map_of_append hdreams hk).imp_right ?_
      rintro ⟨dream, hd, rfl⟩
      exact hdream dream hd
    case turnSession =>
      refine (mem_map_of_append hturns hk).imp_right ?_
      rintro ⟨turn, ht, rfl⟩
      exact (hturn turn ht).1
    case turnDream =>
      refine (mem_filterMap_of_append hturns hk).imp_right ?_
      rintro ⟨turn, ht, hd⟩
      exact (hturn turn ht).2 k hd
    case jobSession =>
      refine (mem_map_of_append hjobs hk).imp_right ?_
      rintro ⟨job, hj, rfl⟩
      exact (hjob job hj).1
    case jobDream =>
      refine (mem_filterMap_of_append hjobs hk).imp_right ?_
      rintro ⟨job, hj, hd⟩
      exact (hjob job hj).2.1 k hd
    case jobThread =>
      refine (mem_filterMap_of_append hjobs hk).imp_right ?_
      rintro ⟨job, hj, ht⟩
      rw [(hjob job hj).2.2] at ht
      cases ht
    case traceSession =>
      refine (mem_filterMap_of_append htraces hk).imp_right ?_
      rintro ⟨trace, ht, hs⟩
      exact (htrace trace ht).1 k hs
    case traceDream =>
      refine (mem_filterMap_of_append htraces hk).imp_right ?_
      rintro ⟨trace, ht, hd⟩
      exact (htrace trace ht).2.1 k hd
    case traceJob =>
      refine (mem_filterMap_of_append htraces hk).imp_right ?_
      rintro ⟨trace, ht, hj⟩
      exact (htrace trace ht).2.2 k hj
    all_goals
      left
      simpa only [Reference.values, h.summaries, h.threads, h.analyses, h.memories] using hk

variable {settings : Settings} {telegramId : ℤ} {text : String} {evaluation : PolicyEvaluation}
  {draws : Draws} {dialogue : Except String DialogueTurn} {result : IngressResult}

/-- A resolution adds no session but the one it returns. -/
theorem mem_getOrCreate {sessions : List DreamSession} {id : Uuid} {now createNow startedAt : Time}
    {k : Uuid} (hk : k ∈ (getOrCreateActiveSession sessions telegramId id now createNow
      startedAt).2.map key) : k ∈ sessions.map key ∨
        k = (getOrCreateActiveSession sessions telegramId id now createNow startedAt).1.id := by
  have hkeys := keys_ensureActiveSession sessions telegramId now
  unfold getOrCreateActiveSession at hk ⊢
  split at hk
  · next he =>
    rw [he] at hkeys
    exact .inl (hkeys ▸ hk)
  · next he =>
    rw [he] at hkeys
    rw [createSession, List.map_append, hkeys, List.mem_append] at hk
    exact hk.imp_right List.mem_singleton.mp

/-- The session that is resolved is there afterwards, with all that were and no other. -/
theorem inSession_resolved {sessions : List DreamSession} {id : Uuid} {now createNow : Time}
    {r : DreamSession × List DreamSession}
    (hr : getOrCreateActiveSession sessions telegramId id now createNow draws.startedAt = r)
    (hafter : after.sessions = updateSessionActivity r.2 r.1.id draws.startedAt) :
    (InSession r.1.id after ∧ sessions.map DreamSession.id ⊆ Parent.sessions.keys after) ∧
      ∀ k, InSession k after → k ∈ sessions.map key ∨ k = r.1.id := by
  have hspec := getOrCreateActiveSession_spec sessions telegramId id now createNow draws.startedAt
  have hupdated : Parent.sessions.keys after = r.2.map key := by
    rw [Parent.keys, hafter]
    exact keys_updateSessionActivity r.2 draws.startedAt r.1.id
  subst hr
  simp only [InSession, hupdated]
  exact ⟨hspec, fun _ => mem_getOrCreate⟩

/-- A message that is no new dream. -/
theorem intake_of_turns {turns : List ConversationTurn} {trace : DialoguePolicyTrace}
    (hsessions : after.sessions = updateSessionActivity (firstResolution telegramId draws db).2
      (firstResolution telegramId draws db).1.id draws.startedAt)
    (hturn : ∀ turn ∈ turns, turn.sessionId = (firstResolution telegramId draws db).1.id ∧
      turn.dreamId = none)
    (htrace : trace.sessionId = some (firstResolution telegramId draws db).1.id ∧
      trace.dreamId = none ∧ trace.jobId = none)
    (hafter : after = { db with
      sessions := after.sessions, turns := db.turns ++ turns, traces := db.traces ++ [trace] }) :
    Intake db after := by
  obtain ⟨⟨hin, hkeys⟩, honly⟩ :=
    inSession_resolved (r := firstResolution telegramId draws db) rfl hsessions
  rw [hafter] at hin hkeys honly ⊢
  refine ⟨hkeys, fun k hk => (honly k hk).imp_right ?_, ⟨[], (List.append_nil _).symm, by simp⟩, ⟨[], (List.append_nil _).symm, by simp⟩,
    ⟨turns, rfl, fun turn ht => ?_⟩, ⟨[trace], rfl, ?_⟩, rfl, rfl, rfl, rfl⟩
  · rintro rfl
    exact .inl ⟨trace, List.mem_append_right _ (List.mem_singleton_self trace), htrace.1⟩
  · obtain ⟨hs, hd⟩ := hturn turn ht
    rw [hs, hd]
    exact ⟨hin, by simp⟩
  · obtain ⟨hs, hd, hj⟩ := htrace
    simpa [hs, hd, hj] using hin

/-- A message that is one; the turns and the trace are in the session of the ingress, the dream
and the job in the one of the intake. -/
theorem intake_of_dream {dream : Dream} {job : AnalysisJob} {turns : List ConversationTurn}
    {trace : DialoguePolicyTrace}
    (hsessions : after.sessions = updateSessionActivity
      (secondResolution telegramId draws (firstResolution telegramId draws db).2).2
      (secondResolution telegramId draws (firstResolution telegramId draws db).2).1.id draws.startedAt)
    (hdream : dream.sessionId =
      (secondResolution telegramId draws (firstResolution telegramId draws db).2).1.id)
    (hjob : job.sessionId = dream.sessionId ∧ job.dreamId = some dream.id ∧ job.threadId = none)
    (hne : turns ≠ [])
    (hturn : ∀ turn ∈ turns, turn.sessionId = (firstResolution telegramId draws db).1.id ∧
      turn.dreamId = some dream.id)
    (htrace : trace.sessionId = some (firstResolution telegramId draws db).1.id ∧
      trace.dreamId = some dream.id ∧ trace.jobId = some job.id)
    (hafter : after = { db with
      sessions := after.sessions, dreams := db.dreams ++ [dream], jobs := db.jobs ++ [job],
      turns := db.turns ++ turns, traces := db.traces ++ [trace] }) :
    Intake db after := by
  obtain ⟨hfirst, hkeys⟩ := getOrCreateActiveSession_spec db.sessions telegramId draws.sessionId
    draws.now draws.createNow draws.startedAt
  obtain ⟨⟨hin, hkeys'⟩, honly⟩ := inSession_resolved
    (r := secondResolution telegramId draws (firstResolution telegramId draws db).2) rfl hsessions
  have hin' : InSession (firstResolution telegramId draws db).1.id after := hkeys' hfirst
  have hold : Parent.sessions.keys db ⊆ Parent.sessions.keys after := fun k hk => hkeys' (hkeys hk)
  have hnewDream : HasDream dream.id after := by
    rw [hafter]
    exact List.mem_map_of_mem (List.mem_append_right _ (List.mem_singleton_self dream))
  have hnewJob : job.id ∈ Parent.jobs.keys after := by
    rw [hafter]
    exact List.mem_map_of_mem (List.mem_append_right _ (List.mem_singleton_self job))
  rw [← hdream] at hin
  obtain ⟨turn₀, hturn₀⟩ := List.exists_mem_of_ne_nil turns hne
  rw [hafter] at hin hin' hold honly hnewDream hnewJob ⊢
  refine ⟨hold, fun k hk => ?_, ⟨[dream], rfl, ?_⟩, ⟨[job], rfl, ?_⟩, ⟨turns, rfl, fun turn ht => ?_⟩,
    ⟨[trace], rfl, ?_⟩, rfl, rfl, rfl, rfl⟩
  · -- the session of the ingress has the trace, the one of the intake has the dream
    rcases honly k hk with hk | rfl
    · refine (mem_getOrCreate hk).imp_right ?_
      rintro rfl
      exact .inl ⟨trace, List.mem_append_right _ (List.mem_singleton_self trace), htrace.1⟩
    · exact .inr (.inr ⟨dream, List.mem_append_right _ (List.mem_singleton_self dream), hdream, turn₀,
        List.mem_append_right _ hturn₀, (hturn turn₀ hturn₀).2⟩)
  · simpa using hin
  · obtain ⟨hs, hd, ht⟩ := hjob
    simpa [hs, hd, ht] using ⟨hin, hnewDream⟩
  · obtain ⟨hs, hd⟩ := hturn turn ht
    rw [hs, hd]
    exact ⟨hin', by simpa using hnewDream⟩
  · obtain ⟨hs, hd, hj⟩ := htrace
    simpa [hs, hd, hj] using ⟨hin', hnewDream, hnewJob⟩

theorem intake_of_message (hok : processIncomingMessage telegramId text evaluation draws settings db
    dialogue = .ok (result, after)) : Intake db after := by
  unfold processIncomingMessage at hok
  cases hr : evaluation.decision.route <;> simp only [hr] at hok
  case noop =>
    cases hok
    refine ⟨List.Subset.refl _, fun _ => .inl, ⟨[], (List.append_nil _).symm, by simp⟩,
      ⟨[], (List.append_nil _).symm, by simp⟩, ⟨[], (List.append_nil _).symm, by simp⟩,
      ⟨_, rfl, by simp [policyTrace]⟩, rfl, rfl, rfl, rfl⟩
  case safety | clarification =>
    cases hok
    refine intake_of_turns rfl (fun turn ht => ?_) ⟨rfl, rfl, rfl⟩ rfl
    rcases List.mem_pair.mp ht with rfl | rfl <;> exact ⟨rfl, rfl⟩
  case dialogueTurn =>
    cases dialogue with
    | error => cases hok
    | ok turn =>
      cases hok
      simp only [takeIn, hr, reduceCtorEq, if_false, List.append_assoc]
      refine intake_of_turns rfl (fun turn ht => ?_) ⟨rfl, rfl, rfl⟩ rfl
      rcases List.mem_pair.mp ht with rfl | rfl <;> exact ⟨rfl, rfl⟩
  case newDream =>
    cases dialogue with
    | error => cases hok
    | ok turn =>
      cases hok
      simp only [takeIn, hr, if_true, List.append_assoc]
      refine intake_of_dream rfl rfl ⟨rfl, rfl, rfl⟩ (by simp) (fun turn ht => ?_) ⟨rfl, rfl, rfl⟩ rfl
      rcases List.mem_pair.mp ht with rfl | rfl <;> exact ⟨rfl, rfl⟩

end Messages

/-! ### The foreign keys -/

section Integral

variable {db after : Database}

theorem grows_acquire (limit : ℤ) (lockedBy : String) (now : Time) (stale : Option ℤ) (configured : ℤ) :
    schema.Grows db { db with
      jobs := (acquireAvailableJobs db.jobs limit lockedBy now stale configured fun _ => false).2 } := by
  unfold acquireAvailableJobs
  split
  · exact .refl _ _
  · refine .trans (t := { db with jobs := (recoverStaleRunningJobs db.jobs now
      (staleSeconds stale configured) fun _ => false) }) ?_ ?_
    all_goals
      refine grows_rewriteJobs (fun row => ?_) (fun row => ?_) (fun row => ?_) fun row => .inl ?_ <;>
        split <;> rfl

variable [CharTable] {settings : Settings}

/-- An operation of the bot takes no target and adds no reference without one. -/
theorem grows_operation {e : Journal.Event} (ht : Journal.step settings db e = some after) :
    schema.Grows db after := by
  cases e with
  | message telegramId text evaluation draws dialogue =>
    simp only [Journal.step, Option.ite_none_right_eq_some] at ht
    obtain ⟨-, ht⟩ := ht
    split at ht <;> cases ht
    · next hok => exact (intake_of_message hok).grows
    · exact .refl _ _
  | acquire limit lockedBy now stale configured =>
    cases ht
    exact grows_acquire limit lockedBy now stale configured
  | execute env deliver job =>
    simp only [Journal.step, Option.ite_none_right_eq_some, Option.some.injEq] at ht
    obtain ⟨-, rfl⟩ := ht
    exact grows_execute (fun _ _ => rfl) db
  | buildSummary sessionId id createdAt =>
    simp only [Journal.step] at ht
    split at ht <;> cases ht
    · next summary summaries hok =>
      refine grows_summaries fun row hrow => ?_
      rcases cachedSummary_ok hok with ⟨-, rfl⟩ | ⟨-, rfl, hid, ⟨session, hget, -⟩, -⟩
      · exact .inl hrow
      · rcases List.mem_append.mp hrow with hrow | hrow
        · exact .inl hrow
        · rw [List.mem_singleton.mp hrow, hid]
          exact .inr (inSession_of_get hget)
    · exact .refl _ _
  | analyse env sessionId mode =>
    cases ht
    exact (triple_runSessionAnalysis (fun _ _ => rfl) mode).transaction trivial

omit [CharTable] in
/-- The script leaves what it does not take, or everything. -/
theorem integral_cleanup (h : schema.Integral db) (execute : Bool) :
    schema.Integral (cleanupLegacySessions execute db).2 := by
  cases execute with
  | false => simpa [cleanupLegacySessions] using h
  | true =>
    rcases cleanup_cases h with ⟨hdetached, hcall⟩ | ⟨-, ref, hcall, -⟩ <;> rw [hcall]
    · exact (integral_without_iff h).mpr hdetached
    · exact h

omit [CharTable] in
/-- The request is refused, or adds a job without a dream. -/
theorem analyzeAsync_cases {sessionId id : Uuid} {mode : AnalysisMode} {now : Time}
    (h : analyzeSessionAsync settings sessionId id mode now db = .ok after) :
    schema.Integral after ∧ after = { db with jobs := db.jobs ++ [newJob id sessionId
      settings.llmProvider settings.defaultModel settings.analysisJobMaxAttempts mode none now] } := by
  obtain ⟨rfl, hintegral⟩ := Schema.check_eq_ok.mp h
  exact ⟨hintegral, rfl⟩

theorem integral_step {e : Event} (h : schema.Integral db) (ht : step settings db e = some after) :
    schema.Integral after := by
  cases e with
  | operation e => exact (grows_operation ht).integral h
  | analyzeAsync sessionId id mode now =>
    simp only [step] at ht
    split at ht <;> cases ht
    · next hok => exact (analyzeAsync_cases hok).1
    · exact h
  | cleanup execute =>
    cases ht
    exact integral_cleanup h execute

/-- In every run all foreign keys hold after every operation and every call of the script, where
they hold at first. -/
theorem integral_always (settings : Settings) (h : schema.Integral db) (es : List Event) :
    Always (step settings) schema.Integral db es :=
  always_of_step (fun _ _ _ h ht => integral_step h ht) h es

omit [CharTable] in
/-- The script takes a session from before the traces, and the summary of another is built. -/
theorem integral_always_cleanup :
    let _ : CharTable := ⟨Char.isAlphanum⟩
    let session : Uuid → DreamSession := fun id => ⟨id, 7, .closed, 0, 0⟩
    let trace : DialoguePolicyTrace :=
      ⟨4, 7, some 2, none, none, ⟨0, 0, .shortFragment, .new, true, false⟩,
        ⟨.noop, .none, "empty_input"⟩, .noop, "empty_input", .noop, 0⟩
    Always (step ⟨"mock", "mock-v1", 3⟩) schema.Integral
      { Database.empty with
        sessions := [session 1, session 2], dreams := [⟨5, 7, "a house", 0, 1⟩], traces := [trace] }
      [.cleanup true, .operation (.buildSummary 2 9 0), .analyzeAsync 1 3 .auto 0] := by
  intro _ session trace
  refine integral_always _ (fun ref => ?_) _
  cases ref <;> decide

end Integral

/-! ### What the script spares -/

section Spared

variable {db after : Database}

def Kept (db : Database) : Prop := ∀ k, InSession k db → Recorded k db

structure SameMessages (db after : Database) : Prop where
  sessions : after.sessions = db.sessions
  dreams : after.dreams = db.dreams
  turns : after.turns = db.turns
  traces : after.traces = db.traces

theorem SameMessages.refl (db : Database) : SameMessages db db := ⟨rfl, rfl, rfl, rfl⟩

theorem SameMessages.kept (h : Kept db) (hsame : SameMessages db after) : Kept after := by
  intro k hk
  rw [Recorded, hsame.traces, hsame.dreams, hsame.turns]
  exact h k (by rwa [InSession, Parent.keys, hsame.sessions] at hk)

theorem Intake.kept (h : Kept db) (hintake : Intake db after) : Kept after := by
  intro k hk
  rcases hintake.recorded k hk with hk | hrecorded
  · obtain ⟨_, hdreams, -⟩ := hintake.dreams
    obtain ⟨_, hturns, -⟩ := hintake.turns
    obtain ⟨_, htraces, -⟩ := hintake.traces
    rw [Recorded, htraces, hdreams, hturns]
    rcases h k hk with ⟨trace, ht, hs⟩ | ⟨dream, hd, hs, turn, ht, hturn⟩
    · exact .inl ⟨trace, List.mem_append_left _ ht, hs⟩
    · exact .inr ⟨dream, List.mem_append_left _ hd, hs, turn, List.mem_append_left _ ht, hturn⟩
  · exact hrecorded

/-- A session on record is none of the script's, or has what the script runs into. -/
theorem cleanup_kept (h : schema.Integral db) (hkept : Kept db) (hkeys : DistinctKeys db.dreams)
    (execute : Bool) : (cleanupLegacySessions execute db).2 = db := by
  cases execute with
  | false => simp [cleanupLegacySessions]
  | true =>
    rcases cleanup_cases h with ⟨hdetached, hcall⟩ | ⟨-, ref, hcall, -⟩
    · by_cases hnil : legacySessionIds db = []
      · rw [cleanup_of_nil hnil]
      · obtain ⟨id, hid⟩ := List.exists_mem_of_ne_nil _ hnil
        obtain ⟨hin, hnone⟩ := mem_legacySessionIds.mp hid
        rcases hkept id hin with htrace | ⟨dream, hd, rfl, turn, ht, hturn⟩
        · exact absurd htrace hnone
        · have hvalue : dream.id ∈ Reference.turnDream.values (without (legacySessionIds db) db) :=
            List.mem_filterMap.mpr ⟨turn, ht, hturn⟩
          have htaken : Taken db .dreams dream.id := by
            refine ⟨List.mem_map_of_mem hd, fun hleft => ?_⟩
            obtain ⟨dream', hd', he⟩ := List.mem_map.mp hleft
            obtain ⟨hd', hout⟩ := List.mem_filter.mp hd'
            obtain rfl : dream' = dream := List.inj_on_of_nodup_map hkeys hd' hd he
            exact of_decide_eq_true hout hid
          exact absurd htaken (hdetached _ _ hvalue)
    · rw [hcall]

instance : Std.Refl SameMessages := ⟨SameMessages.refl⟩

instance : IsTrans Database SameMessages := ⟨fun _ _ _ h h' =>
  ⟨h'.1.trans h.1, h'.2.trans h.2, h'.3.trans h.3, h'.4.trans h.4⟩⟩

/-- No statement of an execution is about the messages. -/
theorem permits_sameMessages : Writes.Permits (fun _ => True) SameMessages where
  others _ _ _ _ := ⟨rfl, rfl, rfl, rfl⟩
  flags _ _ _ := ⟨rfl, rfl, rfl, rfl⟩
  stored _ _ _ := ⟨rfl, rfl, rfl, rfl⟩
  finished _ _ _ := ⟨rfl, rfl, rfl, rfl⟩

variable [CharTable] {settings : Settings}

theorem kept_operation {e : Journal.Event} (h : Kept db)
    (ht : Journal.step settings db e = some after) : Kept after := by
  cases e with
  | message telegramId text evaluation draws dialogue =>
    simp only [Journal.step, Option.ite_none_right_eq_some] at ht
    obtain ⟨-, ht⟩ := ht
    split at ht <;> cases ht
    · next hok => exact (intake_of_message hok).kept h
    · exact h
  | acquire limit lockedBy now stale configured =>
    cases ht
    exact SameMessages.kept h ⟨rfl, rfl, rfl, rfl⟩
  | execute env deliver job =>
    simp only [Journal.step, Option.ite_none_right_eq_some, Option.some.injEq] at ht
    obtain ⟨-, rfl⟩ := ht
    exact (Writes.rel_execute permits_sameMessages (fun _ _ => rfl) (fun _ _ _ => trivial) db).kept h
  | buildSummary sessionId id createdAt =>
    simp only [Journal.step] at ht
    split at ht <;> cases ht
    · exact SameMessages.kept h ⟨rfl, rfl, rfl, rfl⟩
    · exact h
  | analyse env sessionId mode =>
    cases ht
    exact (Writes.rel_analyse permits_sameMessages (fun _ _ => rfl) (fun _ _ _ => trivial) mode db).kept h

/-- What a run keeps that starts with empty tables. -/
structure Sound (db : Database) : Prop where
  integral : schema.Integral db
  kept : Kept db
  owned : Journal.Owned db

omit [CharTable] in
theorem sound_empty : Sound Database.empty :=
  ⟨integral_empty, fun _ hk => absurd hk List.not_mem_nil, Journal.owned_empty⟩

omit [CharTable] in
theorem Sound.spared (h : Sound db) (execute : Bool) : (cleanupLegacySessions execute db).2 = db :=
  cleanup_kept h.integral h.kept h.owned.dreamKeys execute

theorem sound_step {e : Event} (h : Sound db) (ht : step settings db e = some after) : Sound after := by
  cases e with
  | operation e =>
    exact ⟨(grows_operation ht).integral h.integral, kept_operation h.kept ht,
      (Journal.isolated_step h.owned ht).1⟩
  | analyzeAsync sessionId id mode now =>
    simp only [step] at ht
    split at ht <;> cases ht
    · next hok =>
      obtain ⟨hintegral, rfl⟩ := analyzeAsync_cases hok
      exact ⟨hintegral, SameMessages.kept h.kept ⟨rfl, rfl, rfl, rfl⟩, { h.owned with }⟩
    · exact h
  | cleanup execute =>
    cases ht
    rwa [h.spared execute]

/-- Whenever the script is called, it takes nothing that a run of the bot has left, if the tables
were empty at first. -/
theorem cleanup_spares (settings : Settings) (es : List Event) :
    Always (step settings) (fun db => ∀ execute, (cleanupLegacySessions execute db).2 = db)
      Database.empty es := by
  have hsound : Always (step settings) Sound Database.empty es :=
    always_of_step (fun _ _ _ h ht => sound_step h ht) sound_empty es
  exact hsound.mono fun _ h => h.spared

end Spared

end LiberNovus.Integrity

import LiberNovus.Analysis.ThreadHistory
import LiberNovus.Journal.Service
import LiberNovus.Runtime.Executor

/-! The journals of different users. Messages, polls, executions of jobs, summaries and
analyses run one at a time, each in a transaction of its own, from an empty database; an
execution may have any copy of a job, and its flushes may fail.

Proved: in every run a step on behalf of one user leaves the journals of all others as they
are, and nobody gets the dream of another user. -/

namespace LiberNovus.Journal

open Rows Runs Owners LiberNovus.Runtime Session Memory Dialogue Analysis Analysis.Pipeline
  UnitOfWork
open ThreadHistory (alone)

/-! ### The system -/

inductive Event where
  | message (telegramId : ℤ) (text : String) (evaluation : PolicyEvaluation) (draws : Draws)
      (dialogue : Except String DialogueTurn)
  | acquire (limit : ℤ) (lockedBy : String) (now : Time) (staleTimeoutSeconds : Option ℤ)
      (configured : ℤ)
  | execute (env : Environment) (deliver : AnalysisJob → SessionAnalysis → Except String Unit)
      (job : AnalysisJob)
  | buildSummary (sessionId id : Uuid) (createdAt : Time)
  | analyse (env : Environment) (sessionId : Uuid) (mode : AnalysisMode)

section System

variable [CharTable] (settings : Settings)

/-- One operation; the identifiers of new rows are new. -/
def step (db : Database) : Event → Option Database
  | .message telegramId text evaluation draws dialogue =>
    if draws.Fresh db.sessions ∧ get db.dreams draws.dreamId = none then
      match processIncomingMessage telegramId text evaluation draws settings db dialogue with
      | .ok (_, after) => some after
      | .error _ => some db
    else none
  | .acquire limit lockedBy now staleTimeoutSeconds configured =>
    some { db with jobs := (acquireAvailableJobs db.jobs limit lockedBy now staleTimeoutSeconds
      configured fun _ => false).2 }
  | .execute env deliver job =>
    if ∀ memory ∈ db.memories, memory.id ≠ env.memoryId then
      some (Runtime.execute (alone env) deliver job db).2
    else none
  | .buildSummary sessionId id createdAt =>
    match cachedSummary db.sessions db.dreams db.summaries sessionId id createdAt with
    | .ok (_, summaries) => some { db with summaries := summaries }
    | .error _ => some db
  | .analyse env sessionId mode =>
    some (Tx.transaction (runSessionAnalysis (alone env) sessionId mode) db).2

omit [CharTable] in
/-- The operation is one of the user: it is his message, or it is about a session of his. A
poll is nobody's. -/
def Event.OnBehalfOf (userId : ℤ) (db : Database) : Event → Prop
  | .message telegramId .. => telegramId = userId
  | .acquire .. => True
  | .execute _ _ job => ∀ o ∈ sessionOwner db job.sessionId, o = userId
  | .buildSummary sessionId _ _ => ∀ o ∈ sessionOwner db sessionId, o = userId
  | .analyse _ sessionId _ => ∀ o ∈ sessionOwner db sessionId, o = userId

end System

/-- Nobody gets the dream of another user. -/
def Hidden (db : Database) : Prop :=
  ∀ dream ∈ db.dreams, ∀ userId, dream.userId ≠ userId →
    getJournalDreamDetail db userId dream.id = none

/-- A step on behalf of a user leaves the journals of all others as they are. -/
def Isolated (db : Database) (e : Event) (after : Database) : Prop :=
  ∀ userId other, e.OnBehalfOf userId db → other ≠ userId → SameJournal other db after

/-! ### What a user's operation may change -/

/-- The owners agree, and the rows of everyone but `v` are those of `db`; so are the sessions,
the dreams and the turns. -/
structure Within (v : ℤ) (db after : Database) : Prop where
  sessions : after.sessions = db.sessions
  dreams : after.dreams = db.dreams
  turns : after.turns = db.turns
  memories : SameOthers DreamMemory.userId v db.memories after.memories
  summaries : SameOthers SessionSummary.userId v db.summaries after.summaries
  memoryKeys : (after.memories.map DreamMemory.id).Nodup
  memoryOwners : ∀ memory ∈ after.memories, dreamOwner db memory.dreamId = some memory.userId
  summaryOwners : ∀ summary ∈ after.summaries,
    sessionOwner db summary.sessionId = some summary.userId

section Within

variable {v : ℤ} {db after : Database}

theorem Within.refl (v : ℤ) (h : Owned db) : Within v db db :=
  ⟨rfl, rfl, rfl, .refl _ _, .refl _ _, h.memoryKeys, h.memories, h.summaries⟩

theorem Within.owned (h : Owned db) (hw : Within v db after) : Owned after where
  sessionKeys := hw.sessions ▸ h.sessionKeys
  dreamKeys := hw.dreams ▸ h.dreamKeys
  memoryKeys := hw.memoryKeys
  dreams := by
    unfold sessionOwner
    rw [hw.sessions, hw.dreams]
    exact h.dreams
  turns := by
    unfold dreamOwner
    rw [hw.dreams, hw.turns]
    exact h.turns
  memories := by
    unfold dreamOwner
    rw [hw.dreams]
    exact hw.memoryOwners
  summaries := by
    unfold sessionOwner
    rw [hw.sessions]
    exact hw.summaryOwners

theorem Within.ownTables (hw : Within v db after) {u : ℤ} (hu : u ≠ v) :
    ownTables after u = ownTables db u := by
  unfold Journal.ownTables
  rw [hw.sessions, hw.dreams, hw.turns, hw.memories u hu, hw.summaries u hu]

theorem ignores_within (env : Environment) : Ignores (alone env) (Within v db) where
  threads _ _ h := ⟨h.1, h.2, h.3, h.4, h.5, h.6, h.7, h.8⟩
  analyses _ _ h := ⟨h.1, h.2, h.3, h.4, h.5, h.6, h.7, h.8⟩
  others _ _ h := h

/-- A summary that is cached for a session of `v` is his. -/
theorem Within.cachedSummary [CharTable] (hw : Within v db after) {sessionId id : Uuid}
    (howner : ∀ o ∈ sessionOwner db sessionId, o = v) {createdAt : Time}
    {summary : SessionSummary} {summaries : List SessionSummary}
    (h : cachedSummary after.sessions after.dreams after.summaries sessionId id createdAt =
      .ok (summary, summaries)) : Within v db { after with summaries := summaries } := by
  rcases cachedSummary_ok h with ⟨-, rfl⟩ | ⟨-, rfl, hid, ⟨session, hget, hu⟩, -⟩
  · exact hw
  · have hsession : sessionOwner db sessionId = some summary.userId := by
      rw [sessionOwner, ← hw.sessions, hget, hu]
      rfl
    have hv : summary.userId = v := howner _ hsession
    refine { hw with
      summaries := hw.summaries.trans (.append (by simpa using hv))
      summaryOwners := ?_ }
    intro row hrow
    rcases List.mem_append.mp hrow with hrow | hrow
    · exact hw.summaryOwners row hrow
    · rw [List.mem_singleton.mp hrow, hid, hsession]

theorem caches_within [CharTable] (env : Environment) {sessionId : Uuid}
    (howner : ∀ o ∈ sessionOwner db sessionId, o = v) :
    Caches (alone env) sessionId (Within v db) := fun _ _ _ hw hload =>
  hw.cachedSummary howner (loadAnalysisInput_ok hload).2.2

end Within

/-! ### Analyses -/

section Analyses

variable [CharTable] {v : ℤ} {db : Database} (h : Owned db) (env : Environment)
include h

theorem within_runSessionAnalysis {sessionId : Uuid}
    (howner : ∀ o ∈ sessionOwner db sessionId, o = v) (mode : AnalysisMode) :
    Within v db (Tx.transaction (runSessionAnalysis (alone env) sessionId mode) db).2 := by
  have hkeeps : Tx.Keeps (Within v db) False (runSessionAnalysis (alone env) sessionId mode) :=
    .bind (keeps_prepareSessionAnalysis (ignores_within env) (caches_within env howner) _) fun _ =>
      .bind (.query _) fun _ => keeps_persistSessionAnalysisInThread (ignores_within env) _ _
  exact (hkeeps (.opened db) ⟨.refl v h, .refl v h, fun _ => rfl⟩).transaction

end Analyses

/-! ### Executions -/

section Memories

variable {v : ℤ} {db : Database} {env : Environment} {s : AsyncSession Database}

/-- What the memory of a dream is assembled from. -/
theorem assembleDreamMemory_ok {sessionId : Uuid} {dreamId : Option ℕ}
    {r : DreamSession × ℕ × StructuredDreamMemoryV1}
    (hr : assembleDreamMemory (alone env) sessionId dreamId (.opened db) = (.ok r, s)) :
    get db.sessions sessionId = some r.1 ∧
      ∃ dream ∈ db.dreams, dream.id = r.2.1 ∧ dream.sessionId = sessionId := by
  obtain ⟨d, s₁, hd, hr⟩ := Tx.bind_eq_ok.mp hr
  obtain rfl : s₁ = .opened db := by
    cases dreamId <;> cases hd
    rfl
  obtain ⟨session, s₂, hsession, hr⟩ := Tx.bind_eq_ok.mp hr
  obtain ⟨hget, rfl⟩ := require_ok hsession
  obtain ⟨memory, s₃, hmemory, hr⟩ := Tx.bind_eq_ok.mp hr
  obtain ⟨dream, s₄, hdream, -⟩ := Tx.bind_eq_ok.mp hmemory
  obtain ⟨hfind, -⟩ := require_ok hdream
  cases hr
  have hids := List.find?_some hfind
  simp only [decide_eq_true_eq] at hids
  exact ⟨hget, dream, List.mem_of_find?_eq_some hfind, hids⟩

/-- A new memory of a dream of `v`. -/
theorem within_insertMemory (h : Owned db) {row : DreamMemory}
    (hfresh : ∀ memory ∈ db.memories, memory.id ≠ row.id) (hv : row.userId = v)
    (howner : dreamOwner db row.dreamId = some v) :
    Within v db { db with memories := db.memories ++ [row] } := by
  refine { Within.refl v h with
    memories := .append (by simpa using hv), memoryKeys := ?_, memoryOwners := ?_ }
  · rw [List.map_append, List.nodup_append]
    refine ⟨h.memoryKeys, List.nodup_singleton _, ?_⟩
    rintro _ hid _ hnew rfl
    obtain ⟨memory, hm, he⟩ := List.mem_map.mp hid
    exact hfresh memory hm (he.trans (List.mem_singleton.mp hnew))
  · intro memory hm
    rcases List.mem_append.mp hm with hm | hm
    · exact h.memories memory hm
    · rw [List.mem_singleton.mp hm, hv]
      exact howner

/-- The memory of a dream of `v` is rewritten. -/
theorem within_updateMemory (h : Owned db) {existing updated : DreamMemory}
    (hm : existing ∈ db.memories) (hid : updated.id = existing.id)
    (hdream : updated.dreamId = existing.dreamId) (huser : updated.userId = existing.userId)
    (hv : existing.userId = v) :
    Within v db { db with
      memories := db.memories.map fun row => if row.id = existing.id then updated else row } := by
  have hsame : ∀ row ∈ db.memories, row.id = existing.id → row = existing := fun row hrow he =>
    List.inj_on_of_nodup_map h.memoryKeys hrow hm he
  refine { Within.refl v h with memories := .map ?_ ?_, memoryKeys := ?_, memoryOwners := ?_ }
  · intro row hrow
    split
    · next he => rw [hsame row hrow he, huser]
    · rfl
  · intro row hrow hne
    refine if_neg fun he => hne ?_
    rw [hsame row hrow he, hv]
  · rw [List.map_map]
    convert h.memoryKeys using 1
    refine List.map_congr_left fun row hrow => ?_
    simp only [Function.comp_apply]
    split
    · next he => exact hid.trans he.symm
    · rfl
  · intro row hrow
    obtain ⟨row', hrow', rfl⟩ := List.mem_map.mp hrow
    split
    · rw [hdream, huser]
      exact h.memories existing hm
    · exact h.memories row' hrow'

/-- The upsert writes the memory of the dream and no other. -/
theorem within_upsertDreamMemory (h : Owned db) (hs : s.tables = db) (hc : s.committed = db)
    (hfresh : ∀ memory ∈ db.memories, memory.id ≠ env.memoryId) {dreamId : ℕ}
    (howner : dreamOwner db dreamId = some v) (sessionId : Uuid) (memory : StructuredDreamMemoryV1)
    (analysisJobId : Option Uuid) :
    Tx.Holds (Within v db) False
      (upsertDreamMemory (alone env) dreamId sessionId v memory analysisJobId s).2 := by
  have hrefl : Within v db db := .refl v h
  have hholds : Tx.Holds (Within v db) False s := ⟨hs ▸ hrefl, hc ▸ hrefl, False.elim⟩
  cases husable : s.usable with
  | false =>
    have hquery : upsertDreamMemory (alone env) dreamId sessionId v memory analysisJobId s =
        (.error .pendingRollback, s) := Tx.bind_error (Tx.statement_unusable husable)
    rw [hquery]
    exact hholds
  | true =>
    unfold upsertDreamMemory
    rw [Tx.bind_ok (Tx.query_ok husable _), hs]
    cases hfind : db.memories.find? fun row => row.dreamId = dreamId with
    | none =>
      refine .bind (hholds.flush ?_) fun _ => .pure _
      rw [hs]
      exact within_insertMemory h hfresh rfl howner
    | some existing =>
      have hm := List.mem_of_find?_eq_some hfind
      have hdream := List.find?_some hfind
      simp only [decide_eq_true_eq] at hdream
      -- the memory of his dream is his
      have hv : existing.userId = v := by
        have hrow := h.memories existing hm
        rw [hdream, howner] at hrow
        exact (Option.some.inj hrow).symm
      refine .bind (hholds.flush ?_) fun _ => .pure _
      rw [hs]
      exact within_updateMemory h hm rfl rfl rfl hv

end Memories

section Executions

variable [CharTable] {v : ℤ} {db : Database} (h : Owned db) {env : Environment} {job : AnalysisJob}
  (hfresh : ∀ memory ∈ db.memories, memory.id ≠ env.memoryId)
  (howner : ∀ o ∈ sessionOwner db job.sessionId, o = v)
include h hfresh howner

theorem holds_executeWithJobBinding :
    Tx.Holds (Within v db) False (executeWithJobBinding (alone env) job (.opened db)).2 := by
  have hrefl : Within v db db := .refl v h
  have hopened : Tx.Holds (Within v db) False (.opened db) := ⟨hrefl, hrefl, fun _ => rfl⟩
  unfold executeWithJobBinding
  split
  · refine .bind ?_ fun _ => .raise _
    unfold executeDreamMemoryJob
    have hkeeps : Tx.Keeps (· = db) False (assembleDreamMemory (alone env) job.sessionId job.dreamId) :=
      keeps_assembleDreamMemory (fun _ _ hdb => hdb) _ _
    rcases ha : assembleDreamMemory (alone env) job.sessionId job.dreamId (.opened db) with
      ⟨e | ⟨session, dreamId, memory⟩, s⟩
    · have hs := hkeeps.opened rfl ha
      rw [Tx.bind_error ha]
      exact ⟨hs.tables ▸ hrefl, hs.committed ▸ hrefl, False.elim⟩
    · have hs := hkeeps.opened rfl ha
      obtain ⟨hsession, dream, hd, hid, hsessionId⟩ := assembleDreamMemory_ok ha
      have hv : session.userId = v := by
        refine howner _ ?_
        rw [sessionOwner, hsession]
        rfl
      have hdream : dreamOwner db dreamId = some v := by
        have hdream := h.dreams dream hd
        rw [hsessionId, sessionOwner, hsession, Option.map_some, hv] at hdream
        dsimp only at hid
        rw [← hid, dreamOwner_of_mem h hd]
        exact hdream.symm
      rw [Tx.bind_ok ha]
      dsimp only
      rw [hv]
      exact .bind (within_upsertDreamMemory h hs.tables hs.committed hfresh hdream _ _ _) fun _ =>
        .pure _
  · have hkeeps : Tx.Keeps (Within v db) False (assembleRuntimeAnalysis (alone env) job >>= fun r =>
        (alone env).others .store >>= fun _ =>
          persistSessionAnalysisInThread (alone env) r.2 r.1) :=
      .bind (keeps_assembleRuntimeAnalysis (ignores_within env) (caches_within env howner))
        fun _ => .bind (Environment.keeps_others (ignores_within env).others _) fun _ =>
          keeps_persistSessionAnalysisInThread (ignores_within env) _ _
    exact hkeeps _ hopened

omit [CharTable] h hfresh howner in
theorem keeps_callQueue (jobId : Uuid) (fin : Queue.Finish) :
    Tx.Keeps (Within v db) False (callQueue jobId fin) := by
  refine .statement fun _ _ _ hw he => ?_
  split at he <;> cases he
  exact ⟨hw.1, hw.2, hw.3, hw.4, hw.5, hw.6, hw.7, hw.8⟩

theorem within_execute (deliver : AnalysisJob → SessionAnalysis → Except String Unit) :
    Within v db (execute (alone env) deliver job db).2 := by
  have hbinding := holds_executeWithJobBinding h hfresh howner
  have hattempt : Tx.Holds (Within v db) False (attemptJob (alone env) job (.opened db)).2 := by
    refine Tx.Holds.bind hbinding fun r => ?_
    split
    · exact .pure _
    · exact .bind (keeps_callQueue _ _) fun _ => .pure _
    · exact .fail _
  refine Tx.Holds.transaction (Tx.Holds.bind hattempt fun r => ?_)
  split
  · exact keeps_callQueue _ _
  · exact .pure _
  · refine .bind (keeps_callQueue _ _) fun _ => ?_
    split
    · exact .bind (.lift _) fun _ => .pure _
    · exact .pure _

end Executions

/-! ### Messages -/

/-- The owner of a session in the table. -/
def ownerIn (sessions : List DreamSession) (sessionId : Uuid) : Option ℤ :=
  (get sessions sessionId).map DreamSession.userId

/-- The sessions of everyone but `v` are the same, and every session keeps its owner. -/
structure SessionsOf (v : ℤ) (sessions after : List DreamSession) : Prop where
  others : SameOthers DreamSession.userId v sessions after
  keys : DistinctKeys after
  owners : ∀ sessionId o, ownerIn sessions sessionId = some o → ownerIn after sessionId = some o

section Sessions

variable {v : ℤ} {sessions after last : List DreamSession} {sessionId id : Uuid}

theorem SessionsOf.refl (v : ℤ) (hu : DistinctKeys sessions) : SessionsOf v sessions sessions :=
  ⟨.refl _ _, hu, fun _ _ h => h⟩

theorem SessionsOf.trans (h : SessionsOf v sessions after) (h' : SessionsOf v after last) :
    SessionsOf v sessions last :=
  ⟨h.others.trans h'.others, h'.keys, fun id o ho => h'.owners id o (h.owners id o ho)⟩

/-- Updating a session of `v`. -/
theorem sessionsOf_modify (hu : DistinctKeys sessions) {f : DreamSession → DreamSession}
    (hf : ∀ session, (f session).id = session.id ∧ (f session).userId = session.userId)
    (howner : ownerIn sessions sessionId = some v) :
    SessionsOf v sessions (modify sessions sessionId f) := by
  have hkey : ∀ session, key (f session) = key session := fun session => (hf session).1
  refine ⟨.modify (fun session => (hf session).2) fun session hm hid => ?_,
    (distinctKeys_modify hkey).mpr hu, fun k o ho => ?_⟩
  · have hget := get_of_mem hu hm
    rw [hid] at hget
    rw [ownerIn, hget] at howner
    exact Option.some.inj howner
  · rw [ownerIn, get_modify hkey]
    split
    · next hk =>
      rw [Option.map_map, ← ho, hk]
      exact congrArg (Option.map · _) (funext fun session => (hf session).2)
    · exact ho

theorem sessionsOf_create (hu : DistinctKeys sessions) (hid : get sessions id = none)
    (now startedAt : Time) :
    SessionsOf v sessions (createSession sessions v id now startedAt).2 ∧
      ownerIn (createSession sessions v id now startedAt).2 id = some v := by
  have hget : get (createSession sessions v id now startedAt).2 id =
      some (createSession sessions v id now startedAt).1 := by
    simp [createSession, get_append, hid, get_singleton]
  refine ⟨⟨.append (by simp), distinctKeys_append_singleton hu hid, fun k o ho => ?_⟩, ?_⟩
  · obtain ⟨session, hs, rfl⟩ := Option.map_eq_some_iff.mp ho
    rw [ownerIn, createSession, get_append, hs]
    rfl
  · rw [ownerIn, hget]
    rfl

/-- The session that a message of `v` gets is his. -/
theorem sessionsOf_getOrCreate (hu : DistinctKeys sessions) (hid : get sessions id = none)
    (now createNow startedAt : Time) :
    SessionsOf v sessions (getOrCreateActiveSession sessions v id now createNow startedAt).2 ∧
      ownerIn (getOrCreateActiveSession sessions v id now createNow startedAt).2
        (getOrCreateActiveSession sessions v id now createNow startedAt).1.id = some v ∧
      ∀ k, k ≠ id → get sessions k = none →
        get (getOrCreateActiveSession sessions v id now createNow startedAt).2 k = none := by
  unfold getOrCreateActiveSession ensureActiveSession
  cases hraw : getActiveSessionRaw sessions v with
  | none =>
    obtain ⟨hs, ho⟩ := sessionsOf_create (v := v) hu hid createNow startedAt
    refine ⟨hs, ho, fun k hk hg => ?_⟩
    simp [createSession, get_append, hg, get_singleton, hk.symm]
  | some session =>
    have hm : session ∈ sessions ∧ session.userId = v := by
      have hm := (List.perm_insertionSort _ _).subset (List.mem_of_head? hraw)
      simp only [List.mem_filter, decide_eq_true_eq] at hm
      exact ⟨hm.1, hm.2.1⟩
    have howner : ownerIn sessions session.id = some v := by
      have hget := get_of_mem hu hm.1
      rw [key_session] at hget
      rw [ownerIn, hget, Option.map_some, hm.2]
    by_cases hstale : session.lastActivityAt < now - inactivityThreshold
    · simp only [hstale, if_true]
      have hclosed := sessionsOf_modify (f := DreamSession.closed) hu (fun _ => ⟨rfl, rfl⟩) howner
      have hgone : ∀ k, get sessions k = none → get (closeSession sessions session.id) k = none := by
        intro k hg
        rw [get_eq_none] at hg ⊢
        rwa [closeSession, keys_modify (f := DreamSession.closed) fun _ => rfl]
      obtain ⟨hs, ho⟩ := sessionsOf_create (v := v) hclosed.keys (hgone id hid) createNow startedAt
      refine ⟨hclosed.trans hs, ho, fun k hk hg => ?_⟩
      simp [createSession, get_append, hgone k hg, get_singleton, hk.symm]
    · simp only [hstale, if_false]
      exact ⟨.refl v hu, howner, fun k _ hg => hg⟩

/-- The activity of the session that a message of `v` gets. -/
theorem sessionsOf_resolved (hu : DistinctKeys sessions) (hid : get sessions id = none)
    (now createNow startedAt : Time) :
    SessionsOf v sessions (updateSessionActivity
      (getOrCreateActiveSession sessions v id now createNow startedAt).2
      (getOrCreateActiveSession sessions v id now createNow startedAt).1.id startedAt) := by
  obtain ⟨hs, ho, -⟩ := sessionsOf_getOrCreate (v := v) hu hid now createNow startedAt
  exact hs.trans (sessionsOf_modify hs.keys (fun _ => ⟨rfl, rfl⟩) ho)

end Sessions

/-- A message of `v` writes dreams in sessions of his, and turns about dreams of his. -/
structure Writes (v : ℤ) (db after : Database) : Prop where
  sessions : SessionsOf v db.sessions after.sessions
  dreams : ∃ new, after.dreams = db.dreams ++ new ∧
    ∀ dream ∈ new, dream.userId = v ∧ sessionOwner after dream.sessionId = some v
  dreamKeys : DistinctKeys after.dreams
  turns : ∃ new, after.turns = db.turns ++ new ∧
    ∀ turn ∈ new, turn.userId = v ∧ ∀ dreamId ∈ turn.dreamId, dreamOwner after dreamId = some v
  memories : after.memories = db.memories
  summaries : after.summaries = db.summaries

section Writes

variable {v : ℤ} {db after : Database}

theorem Writes.owned (h : Owned db) (hw : Writes v db after) : Owned after := by
  obtain ⟨newDreams, hdreams, hdream⟩ := hw.dreams
  obtain ⟨newTurns, hturns, hturn⟩ := hw.turns
  have hkept : ∀ dreamId o, dreamOwner db dreamId = some o → dreamOwner after dreamId = some o := by
    intro dreamId o ho
    obtain ⟨dream, hget, rfl⟩ := Option.map_eq_some_iff.mp ho
    rw [dreamOwner, hdreams, get_append, hget]
    rfl
  refine ⟨hw.sessions.keys, hw.dreamKeys, hw.memories ▸ h.memoryKeys, ?_, ?_, ?_, ?_⟩
  · intro dream hd
    rcases List.mem_append.mp (hdreams ▸ hd) with hd | hd
    · exact hw.sessions.owners _ _ (h.dreams dream hd)
    · rw [(hdream dream hd).1]
      exact (hdream dream hd).2
  · intro turn ht dreamId hid
    rcases List.mem_append.mp (hturns ▸ ht) with ht | ht
    · exact hkept _ _ (h.turns turn ht dreamId hid)
    · rw [(hturn turn ht).1]
      exact (hturn turn ht).2 dreamId hid
  · intro memory hm
    exact hkept _ _ (h.memories memory (hw.memories ▸ hm))
  · intro summary hs
    exact hw.sessions.owners _ _ (h.summaries summary (hw.summaries ▸ hs))

theorem Writes.ownTables (hw : Writes v db after) {u : ℤ} (hu : u ≠ v) :
    ownTables after u = ownTables db u := by
  obtain ⟨newDreams, hdreams, hdream⟩ := hw.dreams
  obtain ⟨newTurns, hturns, hturn⟩ := hw.turns
  have hd : SameOthers Dream.userId v db.dreams after.dreams :=
    hdreams ▸ .append fun dream hd => (hdream dream hd).1
  have ht : SameOthers ConversationTurn.userId v db.turns after.turns :=
    hturns ▸ .append fun turn ht => (hturn turn ht).1
  unfold Journal.ownTables
  rw [hw.sessions.others u hu, hd u hu, ht u hu, hw.memories, hw.summaries]

/-- A message that is no new dream. -/
theorem writes_of_turns (h : Owned db) (hsessions : SessionsOf v db.sessions after.sessions)
    (hdreams : after.dreams = db.dreams) {new : List ConversationTurn}
    (hturns : after.turns = db.turns ++ new)
    (hnew : ∀ turn ∈ new, turn.userId = v ∧ turn.dreamId = none)
    (hmemories : after.memories = db.memories) (hsummaries : after.summaries = db.summaries) :
    Writes v db after := by
  refine ⟨hsessions, ⟨[], by rw [hdreams, List.append_nil], nofun⟩, hdreams ▸ h.dreamKeys,
    ⟨new, hturns, fun turn ht => ?_⟩, hmemories, hsummaries⟩
  obtain ⟨hu, hnone⟩ := hnew turn ht
  rw [hnone]
  exact ⟨hu, nofun⟩

/-- A message that is one, with turns about it. -/
theorem writes_of_dream (h : Owned db) (hsessions : SessionsOf v db.sessions after.sessions)
    {dream : Dream} (hdream : get db.dreams dream.id = none) (hdreams : after.dreams = db.dreams ++ [dream])
    (hv : dream.userId = v) (howner : sessionOwner after dream.sessionId = some v)
    {new : List ConversationTurn} (hturns : after.turns = db.turns ++ new)
    (hnew : ∀ turn ∈ new, turn.userId = v ∧ turn.dreamId = some dream.id)
    (hmemories : after.memories = db.memories) (hsummaries : after.summaries = db.summaries) :
    Writes v db after := by
  have hget : dreamOwner after dream.id = some v := by
    have hkey : key dream = dream.id := rfl
    rw [dreamOwner, hdreams, get_append, hdream, Option.none_or, get_singleton, if_pos hkey,
      Option.map_some, hv]
  refine ⟨hsessions, ⟨[dream], hdreams, by simpa using ⟨hv, howner⟩⟩, ?_,
    ⟨new, hturns, fun turn ht => ?_⟩, hmemories, hsummaries⟩
  · rw [hdreams]
    exact distinctKeys_append_singleton h.dreamKeys hdream
  · obtain ⟨hu, hid⟩ := hnew turn ht
    refine ⟨hu, fun dreamId hmem => ?_⟩
    rw [hid] at hmem
    exact Option.some.inj hmem ▸ hget

theorem writes_processIncomingMessage (h : Owned db) {settings : Settings} {text : String}
    {evaluation : PolicyEvaluation} {draws : Draws} {dialogue : Except String DialogueTurn}
    {result : IngressResult} (hfresh : draws.Fresh db.sessions)
    (hdream : get db.dreams draws.dreamId = none)
    (hok : processIncomingMessage v text evaluation draws settings db dialogue =
      .ok (result, after)) : Writes v db after := by
  obtain ⟨hnew, hnew', hne⟩ := hfresh
  have hfirst := sessionsOf_getOrCreate (v := v) h.sessionKeys hnew draws.now draws.createNow
    draws.startedAt
  have hresolved := sessionsOf_resolved (v := v) h.sessionKeys hnew draws.now draws.createNow
    draws.startedAt
  unfold processIncomingMessage at hok
  cases hr : evaluation.decision.route <;> simp only [hr] at hok
  case noop =>
    cases hok
    exact writes_of_turns h (.refl v h.sessionKeys) rfl (List.append_nil _).symm nofun rfl rfl
  case safety | clarification =>
    cases hok
    exact writes_of_turns h hresolved rfl rfl (by simp [userTurn, assistantTurn]) rfl rfl
  case dialogueTurn =>
    cases dialogue with
    | error => cases hok
    | ok turn =>
      cases hok
      simp only [takeIn, hr, reduceCtorEq, if_false]
      exact writes_of_turns h hresolved rfl (List.append_assoc _ [_] [_])
        (by simp [userTurn, assistantTurn]) rfl rfl
  case newDream =>
    cases dialogue with
    | error => cases hok
    | ok turn =>
      cases hok
      -- the second resolution, among the sessions that the first has left
      have hgone := hfirst.2.2 draws.sessionId' hne.symm hnew'
      have hsecond := sessionsOf_getOrCreate (v := v) hfirst.1.keys hgone draws.now' draws.createNow'
        draws.startedAt
      have hactive := sessionsOf_modify (f := fun session =>
        { session with lastActivityAt := draws.startedAt }) hsecond.1.keys (fun _ => ⟨rfl, rfl⟩)
        hsecond.2.1
      simp only [takeIn, hr, if_true]
      refine writes_of_dream h (hfirst.1.trans (hsecond.1.trans hactive)) ?_ rfl rfl
        (hactive.owners _ _ hsecond.2.1) (List.append_assoc _ [_] [_]) ?_ rfl rfl
      · exact hdream
      · intro turn ht
        rcases List.mem_pair.mp ht with rfl | rfl <;> exact ⟨rfl, rfl⟩

end Writes

/-! ### Runs -/

section Runs

variable [CharTable] {settings : Settings} {db after : Database} {e : Event}

omit [CharTable] in
/-- What the operation is about belongs to some user. -/
theorem exists_onBehalfOf (db : Database) (e : Event) : ∃ v, e.OnBehalfOf v db := by
  have hsome : ∀ sessionId, ∃ v, ∀ o ∈ sessionOwner db sessionId, o = v := by
    intro sessionId
    cases ho : sessionOwner db sessionId with
    | none => exact ⟨0, nofun⟩
    | some o => exact ⟨o, fun o' ho' => (Option.some.inj ho').symm⟩
  cases e with
  | message telegramId => exact ⟨telegramId, rfl⟩
  | acquire => exact ⟨0, trivial⟩
  | execute _ _ job => exact hsome job.sessionId
  | buildSummary sessionId => exact hsome sessionId
  | analyse _ sessionId => exact hsome sessionId

/-- The step lemma: the owners agree after a step on behalf of `v`, and the rows of everyone
else are the same. -/
theorem owned_step (h : Owned db) (ht : step settings db e = some after) {v : ℤ}
    (hv : e.OnBehalfOf v db) : Owned after ∧ ∀ u, u ≠ v → ownTables after u = ownTables db u := by
  have hwithin : ∀ {t}, Within v db t → Owned t ∧ ∀ u, u ≠ v → ownTables t u = ownTables db u :=
    fun hw => ⟨hw.owned h, fun u hu => hw.ownTables hu⟩
  have hrefl : Within v db db := .refl v h
  cases e with
  | message telegramId text evaluation draws dialogue =>
    obtain rfl : telegramId = v := hv
    simp only [step, Option.ite_none_right_eq_some] at ht
    obtain ⟨⟨hfresh, hdream⟩, ht⟩ := ht
    split at ht <;> cases ht
    · next result hok =>
      have hw := writes_processIncomingMessage h hfresh hdream hok
      exact ⟨hw.owned h, fun u hu => hw.ownTables hu⟩
    · exact hwithin hrefl
  | acquire =>
    cases ht
    exact hwithin ⟨rfl, rfl, rfl, hrefl.4, hrefl.5, hrefl.6, hrefl.7, hrefl.8⟩
  | execute env deliver job =>
    simp only [step, Option.ite_none_right_eq_some, Option.some.injEq] at ht
    obtain ⟨hfresh, rfl⟩ := ht
    exact hwithin (within_execute h hfresh hv deliver)
  | buildSummary sessionId id createdAt =>
    simp only [step] at ht
    split at ht <;> cases ht
    · next summary summaries hok => exact hwithin (hrefl.cachedSummary hv hok)
    · exact hwithin hrefl
  | analyse env sessionId mode =>
    cases ht
    exact hwithin (within_runSessionAnalysis h env hv mode)

theorem isolated_step (h : Owned db) (ht : step settings db e = some after) :
    Owned after ∧ Isolated db e after := by
  obtain ⟨v, hv⟩ := exists_onBehalfOf db e
  have hafter := (owned_step h ht hv).1
  refine ⟨hafter, fun v' u hv' hu => ?_⟩
  exact sameJournal_of_ownTables h hafter ((owned_step h ht hv').2 u hu)

/-- In every run nobody gets the dream of another user, and a step on behalf of one user
leaves the journals of all others as they are. -/
theorem journal_isolated (settings : Settings) (es : List Event) :
    Always (step settings) Hidden Database.empty es ∧
      AlwaysStep (step settings) Isolated Database.empty es := by
  constructor
  · have hinv : Always (step settings) Owned Database.empty es :=
      always_of_step (fun _ _ _ h ht => (isolated_step h ht).1) owned_empty es
    exact hinv.mono fun _ h _ hd userId hne => getJournalDreamDetail_none h userId hd hne
  · exact alwaysStep_of_step (Q := Isolated) (fun _ _ _ h ht => isolated_step h ht) owned_empty es

end Runs

end LiberNovus.Journal

import LiberNovus.Database

/-! The session service, and the ingress: the resolution of the active session, the
intake of a dream, and `process_incoming_message` over the evaluation of the policy and the
outcome of the dialogue provider. The identifiers of new rows and the readings of the
clock are arguments; `startedAt` is the start of the transaction. -/

namespace LiberNovus.Session

open Rows LiberNovus.Runtime Dialogue

/-! ### Sessions -/

/-- `ORDER BY created_at DESC`. -/
def DreamSession.Newer (a b : DreamSession) : Prop := b.createdAt ≤ a.createdAt

instance : DecidableRel DreamSession.Newer := fun _ _ => inferInstanceAs (Decidable (_ ≤ _))

def getActiveSessionRaw (sessions : List DreamSession) (userId : ℤ) : Option DreamSession :=
  ((sessions.filter fun session => session.userId = userId ∧ session.status = .active).insertionSort
    DreamSession.Newer).head?

def closeSession (sessions : List DreamSession) (sessionId : Uuid) : List DreamSession :=
  modify sessions sessionId DreamSession.closed

/-- `ensure_active_session`: a session that is stale is closed. -/
def ensureActiveSession (sessions : List DreamSession) (userId : ℤ) (now : Time) :
    Option DreamSession × List DreamSession :=
  match getActiveSessionRaw sessions userId with
  | none => (none, sessions)
  | some session =>
    if session.lastActivityAt < now - inactivityThreshold then
      (none, closeSession sessions session.id)
    else (some session, sessions)

def createSession (sessions : List DreamSession) (userId : ℤ) (id : Uuid) (now startedAt : Time) :
    DreamSession × List DreamSession :=
  let session : DreamSession := ⟨id, userId, .active, startedAt, now⟩
  (session, sessions ++ [session])

/-- `get_or_create_active_session`; `createNow` is the reading of `create_session`. -/
def getOrCreateActiveSession (sessions : List DreamSession) (userId : ℤ) (id : Uuid)
    (now createNow startedAt : Time) : DreamSession × List DreamSession :=
  match ensureActiveSession sessions userId now with
  | (some session, sessions) => (session, sessions)
  | (none, sessions) => createSession sessions userId id createNow startedAt

def updateSessionActivity (sessions : List DreamSession) (sessionId : Uuid) (startedAt : Time) :
    List DreamSession :=
  modify sessions sessionId fun session => { session with lastActivityAt := startedAt }

/-! ### Dreams -/

/-- The settings that a new job is created with. -/
structure Settings where
  llmProvider : String
  defaultModel : String
  analysisJobMaxAttempts : ℤ
  deriving DecidableEq, Repr

/-- What a call of the ingress draws from outside: the identifiers of the rows it may
create, and the readings of the clock. A second resolution of the session has its own. -/
structure Draws where
  sessionId : Uuid
  sessionId' : Uuid
  dreamId : ℕ
  jobId : Uuid
  userTurnId : Uuid
  assistantTurnId : Uuid
  traceId : Uuid
  now : Time
  createNow : Time
  now' : Time
  createNow' : Time
  jobNow : Time
  startedAt : Time
  deriving DecidableEq, Repr

/-- The identifiers of new sessions are new. -/
def Draws.Fresh (draws : Draws) (sessions : List DreamSession) : Prop :=
  get sessions draws.sessionId = none ∧ get sessions draws.sessionId' = none ∧
    draws.sessionId ≠ draws.sessionId'

instance (draws : Draws) (sessions : List DreamSession) : Decidable (draws.Fresh sessions) :=
  inferInstanceAs (Decidable (_ ∧ _))

/-- `register_incoming_dream`. Returns the dream, the job and the tables. -/
def registerIncomingDream (settings : Settings) (db : Database) (telegramId : ℤ) (text : String)
    (draws : Draws) : (Dream × AnalysisJob) × Database :=
  let (session, sessions) :=
    getOrCreateActiveSession db.sessions telegramId draws.sessionId' draws.now' draws.createNow'
      draws.startedAt
  let dream : Dream := ⟨draws.dreamId, telegramId, text, draws.startedAt, session.id⟩
  let job := newJob draws.jobId session.id settings.llmProvider settings.defaultModel
    settings.analysisJobMaxAttempts .auto (some dream.id) draws.jobNow
  ((dream, job), { db with
    sessions := updateSessionActivity sessions session.id draws.startedAt
    dreams := db.dreams ++ [dream]
    jobs := db.jobs ++ [job] })

/-! ### Messages -/

/-- A validated `DialogueTurnV1`: the message, and its other fields serialised. -/
structure DialogueTurn where
  assistantMessage : String
  metadataJson : String
  deriving DecidableEq, Repr

structure IngressResult where
  route : PolicyRoute
  reasonCode : String
  sessionAction : SessionAction
  sessionId : Option Uuid
  dreamId : Option ℕ
  jobId : Option Uuid
  outboundMessages : List String
  deriving DecidableEq, Repr

def buildSafetyResponse : String :=
  "Спасибо, что написали. То, что вы описываете, звучит очень тяжело.\n\n" ++
    "Я не могу заменить профессиональную помощь в кризисной ситуации. Если вам сейчас " ++
    "небезопасно, пожалуйста, обратитесь к близкому человеку, к местной службе экстренной " ++
    "психологической помощи или в экстренные службы вашего региона.\n\n" ++
    "Если хотите, можете написать, что вам сейчас важнее всего — поддержка, страх или " ++
    "одиночество. Я могу оставаться рядом в формате бережного разговора, но не буду " ++
    "интерпретировать это как сон."

def buildClarificationResponse : String :=
  "Похоже, это пока короткий фрагмент. Если хотите, опишите сон чуть подробнее: образы, " ++
    "эмоции и чем он закончился."

section Message

variable (telegramId : ℤ) (text : String) (evaluation : PolicyEvaluation) (draws : Draws)

/-- `append_user_turn`. -/
def userTurn (sessionId : Uuid) (turnType : TurnType) (dreamId : Option ℕ) : ConversationTurn :=
  ⟨draws.userTurnId, telegramId, sessionId, dreamId, .user, turnType, "telegram", text, none,
    draws.startedAt⟩

/-- `append_assistant_turn`. -/
def assistantTurn (reply : String) (sessionId : Uuid) (turnType : TurnType) (dreamId : Option ℕ)
    (metadataJson : Option String) : ConversationTurn :=
  ⟨draws.assistantTurnId, telegramId, sessionId, dreamId, .assistant, turnType, "telegram", reply,
    metadataJson, draws.startedAt⟩

/-- `record_policy_trace`. -/
def policyTrace (sessionId : Option Uuid) (intake : Option (Dream × AnalysisJob))
    (outcome : TraceOutcome) : DialoguePolicyTrace where
  id := draws.traceId
  userId := telegramId
  sessionId := sessionId
  dreamId := intake.map fun intake => intake.1.id
  jobId := intake.map fun intake => intake.2.id
  inputJson := policyInputProjection evaluation.policyInput
  decisionJson := evaluation.decision
  route := evaluation.decision.route
  reasonCode := evaluation.decision.reasonCode
  outcomeJson := outcome
  createdAt := draws.startedAt

/-- The result of a message with a session. -/
def ingressResult (sessionId : Uuid) (intake : Option (Dream × AnalysisJob)) (outbound : String) :
    IngressResult where
  route := evaluation.decision.route
  reasonCode := evaluation.decision.reasonCode
  sessionAction := evaluation.decision.sessionAction
  sessionId := some sessionId
  dreamId := intake.map fun intake => intake.1.id
  jobId := intake.map fun intake => intake.2.id
  outboundMessages := [outbound]

/-- The routes with a fixed reply. -/
def replyFixed (db : Database) (outbound : String) (turnType : TurnType) (outcome : TraceOutcome) :
    IngressResult × Database :=
  let (session, sessions) := getOrCreateActiveSession db.sessions telegramId draws.sessionId
    draws.now draws.createNow draws.startedAt
  (ingressResult evaluation session.id none outbound,
    { db with
      sessions := updateSessionActivity sessions session.id draws.startedAt
      turns := db.turns ++ [userTurn telegramId text draws session.id turnType none,
        assistantTurn telegramId draws outbound session.id turnType none none]
      traces := db.traces ++ [policyTrace telegramId evaluation draws session.id none outcome] })

/-- The routes on which the companion replies, up to its reply: the session, what was
taken in, and the tables. -/
def takeIn (settings : Settings) (db : Database) :
    DreamSession × Option (Dream × AnalysisJob) × Database :=
  let (session, sessions) := getOrCreateActiveSession db.sessions telegramId draws.sessionId
    draws.now draws.createNow draws.startedAt
  let db := { db with sessions := sessions }
  if evaluation.decision.route = .newDream then
    let (intake, db) := registerIncomingDream settings db telegramId text draws
    (session, some intake, { db with
      turns := db.turns ++
        [userTurn telegramId text draws session.id .dreamIntake (some intake.1.id)]
      traces := db.traces ++ [policyTrace telegramId evaluation draws session.id (some intake)
        (.newDreamEnqueued intake.1.id intake.2.id)] })
  else
    (session, none, { db with
      sessions := updateSessionActivity db.sessions session.id draws.startedAt
      turns := db.turns ++ [userTurn telegramId text draws session.id .dialogue none]
      traces := db.traces ++
        [policyTrace telegramId evaluation draws session.id none .dialogueTurn] })

/-- `process_incoming_message`, on the evaluation of its router; `dialogue` is the outcome
of `generate_dialogue_turn`. -/
def processIncomingMessage (settings : Settings) (db : Database)
    (dialogue : Except String DialogueTurn) : Except String (IngressResult × Database) :=
  match evaluation.decision.route with
  | .noop => .ok (⟨evaluation.decision.route, evaluation.decision.reasonCode,
      evaluation.decision.sessionAction, none, none, none, []⟩,
    { db with traces := db.traces ++ [policyTrace telegramId evaluation draws none none .noop] })
  | .safety =>
    .ok (replyFixed telegramId text evaluation draws db buildSafetyResponse .safety .safety)
  | .clarification =>
    .ok (replyFixed telegramId text evaluation draws db buildClarificationResponse .clarification
      .clarification)
  | .newDream | .dialogueTurn => do
    let (session, intake, db) := takeIn telegramId text evaluation draws settings db
    let turn ← dialogue
    let turnType := if evaluation.decision.route = .newDream then .dreamIntake else .dialogue
    .ok (ingressResult evaluation session.id intake turn.assistantMessage,
      { db with turns := db.turns ++ [assistantTurn telegramId draws turn.assistantMessage
        session.id turnType (intake.map fun intake => intake.1.id) (some turn.metadataJson)] })

end Message

/-! ### The router over the sessions -/

/-- `_default_session_state_resolver`. -/
def resolveSessionState (sessions : List DreamSession) (userId : ℤ) : SessionState :=
  match getActiveSessionRaw sessions userId with
  | none => .new
  | some _ => .active

/-- `DialoguePolicyRouter.evaluate`, with the default resolver and engine. -/
def evaluate [CharTable] [CaseTable] (sessions : List DreamSession) (userId : ℤ) (text : String) :
    PolicyEvaluation :=
  let policyInput := buildPolicyInput text (resolveSessionState sessions userId)
  ⟨policyInput, DialoguePolicyEngine.decide policyInput⟩

/-! ### Sessions only grow -/

section Sessions

variable (sessions : List DreamSession) (userId : ℤ) (id : Uuid) (now createNow startedAt : Time)

variable {sessions userId} in
theorem mem_of_getActiveSessionRaw {session : DreamSession}
    (h : getActiveSessionRaw sessions userId = some session) : session ∈ sessions := by
  have hm := (List.perm_insertionSort _ _).subset (List.mem_of_head? h)
  exact (List.mem_filter.mp hm).1

theorem keys_ensureActiveSession :
    (ensureActiveSession sessions userId now).2.map key = sessions.map key := by
  unfold ensureActiveSession
  split
  · rfl
  · split
    · exact keys_modify (f := DreamSession.closed) (fun _ => rfl) sessions
    · rfl

theorem keys_updateSessionActivity (sessionId : Uuid) :
    (updateSessionActivity sessions sessionId startedAt).map key = sessions.map key := by
  refine keys_modify ?_ sessions
  exact fun _ => rfl

variable {sessions userId now} in
theorem mem_of_ensureActiveSession {session : DreamSession}
    (h : (ensureActiveSession sessions userId now).1 = some session) : session ∈ sessions := by
  unfold ensureActiveSession at h
  split at h
  · cases h
  · next hraw =>
    split at h <;> cases h
    exact mem_of_getActiveSessionRaw hraw

/-- The resolved session is in the table, and no session has left it. -/
theorem getOrCreateActiveSession_spec :
    key (getOrCreateActiveSession sessions userId id now createNow startedAt).1 ∈
        (getOrCreateActiveSession sessions userId id now createNow startedAt).2.map key ∧
      sessions.map key ⊆
        (getOrCreateActiveSession sessions userId id now createNow startedAt).2.map key := by
  have hk := keys_ensureActiveSession sessions userId now
  have hm : ∀ session, (ensureActiveSession sessions userId now).1 = some session →
      session ∈ sessions := fun _ => mem_of_ensureActiveSession
  unfold getOrCreateActiveSession
  split
  · next session after he =>
    rw [he] at hk hm
    exact ⟨hk ▸ List.mem_map_of_mem (hm session rfl), hk ▸ List.Subset.refl _⟩
  · next after he =>
    rw [he] at hk
    refine ⟨by simp [createSession], ?_⟩
    rw [createSession, List.map_append, hk]
    exact List.subset_append_left _ _

end Sessions

end LiberNovus.Session

import LiberNovus.Integrity.Runs
import LiberNovus.Session.OwnHistory

/-! The webhook of the bot. An update goes through the ingress in the transaction of its request,
and the replies are sent before that transaction is committed.

Proved: in every run of requests and of the other operations of the bot, the tables of the messages
are what the requests that were answered with success make of them, exchange by exchange, and
outside of tests the replies in the tables are those that Telegram took during these requests. -/

namespace LiberNovus.Notifications.Webhook

open Rows Runs Session Dialogue Integrity LiberNovus.Runtime

/-! ### Updates -/

structure TelegramUser where
  id : ℤ
  firstName : Option String
  languageCode : Option String
  deriving DecidableEq, Repr

/-- A validated message; `chatId` is the `id` of its chat. -/
structure TelegramMessage where
  fromUser : TelegramUser
  chatId : ℤ
  text : String
  minLength : text ≠ ""
  deriving DecidableEq

structure TelegramUpdate where
  updateId : ℤ
  message : Option TelegramMessage
  deriving DecidableEq

/-! ### The delivery -/

/-- A request to the Bot API. -/
inductive Request where
  | sendChatAction (chatId action : String)
  | sendMessage (chatId text : String)
  deriving DecidableEq, Repr

/-- The chat and the text of a message. -/
def Request.message : Request → Option (String × String)
  | .sendChatAction _ _ => none
  | .sendMessage chatId text => some (chatId, text)

/-- The client, and what posting a request and `raise_for_status` come to. -/
structure TelegramDeliveryService where
  botToken : String
  post : Request → Except String Unit

namespace TelegramDeliveryService

variable (delivery : TelegramDeliveryService) (chatId : String)

/-- A request that Telegram takes is returned. -/
def send (request : Request) : Except String Request :=
  if delivery.botToken = "" then .error "BOT_TOKEN is not configured"
  else (delivery.post request).map fun _ => request

def sendChatAction (action : String) : Except String Request :=
  delivery.send (.sendChatAction chatId action)

def sendText (text : String) : Except String Request := delivery.send (.sendMessage chatId text)

def trySendTyping : List Request := (delivery.sendChatAction chatId "typing").toOption.toList

/-- `send_text` for each of the messages: what it raises, and what Telegram takes until then. -/
def sendTexts : List String → Option String × List Request
  | [] => (none, [])
  | text :: texts =>
    match delivery.sendText chatId text with
    | .error e => (some e, [])
    | .ok request => ((sendTexts texts).1, request :: (sendTexts texts).2)

theorem message_of_typing {request : Request} (h : request ∈ delivery.trySendTyping chatId) :
    request.message = none := by
  unfold trySendTyping sendChatAction send at h
  split at h
  · cases h
  · cases hpost : delivery.post (.sendChatAction chatId "typing") with
    | error e =>
      rw [hpost] at h
      cases h
    | ok =>
      rw [hpost] at h
      cases List.mem_singleton.mp h
      rfl

variable {delivery chatId} in
/-- Where nothing is raised, each text has been sent once, in their order. -/
theorem sendTexts_of_none {texts : List String} (h : (delivery.sendTexts chatId texts).1 = none) :
    (delivery.sendTexts chatId texts).2 = texts.map (.sendMessage chatId) := by
  induction texts with
  | nil => rfl
  | cons text texts ih =>
    unfold sendTexts at h ⊢
    cases hsend : delivery.sendText chatId text with
    | error e =>
      rw [hsend] at h
      cases h
    | ok request =>
      rw [hsend] at h
      unfold sendText send at hsend
      split at hsend
      · cases hsend
      · cases hpost : delivery.post (.sendMessage chatId text) with
        | error e =>
          rw [hpost] at hsend
          cases hsend
        | ok =>
          rw [hpost] at hsend
          cases hsend
          rw [List.map_cons, ← ih h]

end TelegramDeliveryService

/-! ### The endpoint -/

structure Config where
  envMode : String
  botToken : String
  settings : Settings
  assets : DialogueAssets

/-- The replies are not sent in a test. -/
def Config.deliver (config : Config) (delivery : TelegramDeliveryService) (chatId : String)
    (outboundMessages : List String) : Option String × List Request :=
  if config.envMode ≠ "test" then delivery.sendTexts chatId outboundMessages else (none, [])

/-- What a request meets: what its call of the ingress draws, the companion, what the database
raises at a flush or at the commit, and Telegram. -/
structure Surroundings where
  draws : Draws
  currentTime : Time
  companion : Companion
  flush : Option String
  commit : Option String
  post : Request → Except String Unit

/-- What comes of a request: an exception or the success status, with the result of the ingress
if there is one; the tables; and what Telegram has taken. -/
structure Response where
  outcome : Except String (Option IngressResult)
  tables : Database
  taken : List Request

section Endpoint

variable [CharTable] [CaseTable] (config : Config)

/-- `telegram_webhook`, in the transaction of `get_session`. -/
def telegramWebhook (around : Surroundings) (update : TelegramUpdate) (db : Database) : Response :=
  match update.message with
  | none => ⟨.ok none, db, []⟩
  | some message =>
    let delivery : TelegramDeliveryService := ⟨config.botToken, around.post⟩
    let chatId := toString message.chatId
    let typing := delivery.trySendTyping chatId
    let companion := around.companion.prompting config.assets
      ⟨message.fromUser.firstName, message.fromUser.languageCode⟩ around.currentTime
    match (receive companion config.settings message.fromUser.id message.text around.draws db).1,
      around.flush with
    | .error e, _ | .ok _, some e => ⟨.error e, db, typing⟩
    | .ok (result, after), none =>
      let (raised, sent) := config.deliver delivery chatId result.outboundMessages
      match raised, around.commit with
      | some e, _ | none, some e => ⟨.error e, db, typing ++ sent⟩
      | none, none => ⟨.ok (some result), after, typing ++ sent⟩

/-! ### The system -/

/-- A message that was answered with success, and what the ingress returned for it. -/
structure Exchange where
  message : TelegramMessage
  result : IngressResult

omit [CharTable] [CaseTable] in
/-- The exchange of a response with success. -/
def Response.exchange (response : Response) (update : TelegramUpdate) : List Exchange :=
  match update.message, response.outcome with
  | some message, .ok (some result) => [⟨message, result⟩]
  | _, _ => []

/-- The tables, the requests that Telegram has taken, each with whether the response came with
success, and the exchanges so far. -/
structure State where
  db : Database
  taken : List (Request × Bool)
  exchanges : List Exchange

def State.empty : State := ⟨Database.empty, [], []⟩

omit [CharTable] [CaseTable] in
def State.after (s : State) (update : TelegramUpdate) (response : Response) : State where
  db := response.tables
  taken := s.taken ++ response.taken.map fun request => (request, response.outcome.isOk)
  exchanges := s.exchanges ++ response.exchange update

/-- A request, whose body may be invalid, or another operation of the bot. -/
inductive Event where
  | post (body : Option TelegramUpdate) (around : Surroundings)
  | operation (e : Journal.Event)

def step (s : State) : Event → Option State
  | .post none _ => some s
  | .post (some update) around =>
    some (s.after update (telegramWebhook config around update s.db))
  | .operation (.message ..) => none
  | .operation e => (Journal.step config.settings s.db e).map fun db => { s with db := db }

end Endpoint

/-! ### What the tables say -/

namespace Exchange

variable (exchange : Exchange)

/-- The user, the decision, and what the message was taken in as. -/
def trace : ℤ × PolicyRoute × String × Option Uuid × Option ℕ × Option Uuid :=
  (exchange.message.fromUser.id, exchange.result.route, exchange.result.reasonCode,
    exchange.result.sessionId, exchange.result.dreamId, exchange.result.jobId)

/-- The message, and the reply to it. -/
def turns : List (ℤ × Option Uuid × Option ℕ × TurnRole × String) :=
  exchange.result.outboundMessages.flatMap fun reply =>
    [(exchange.message.fromUser.id, exchange.result.sessionId, exchange.result.dreamId, .user,
      exchange.message.text),
     (exchange.message.fromUser.id, exchange.result.sessionId, exchange.result.dreamId, .assistant,
      reply)]

/-- The dream, if the message was one. -/
def dreams : List (ℤ × ℕ × String) :=
  exchange.result.dreamId.toList.map fun id =>
    (exchange.message.fromUser.id, id, exchange.message.text)

def jobs : List (Uuid × Option ℕ) :=
  exchange.result.jobId.toList.map fun id => (id, exchange.result.dreamId)

/-- The replies, with the chat they go to. -/
def replies : List (String × String) :=
  exchange.result.outboundMessages.map fun reply => (toString exchange.message.chatId, reply)

end Exchange

def traceColumns (trace : DialoguePolicyTrace) :
    ℤ × PolicyRoute × String × Option Uuid × Option ℕ × Option Uuid :=
  (trace.userId, trace.route, trace.reasonCode, trace.sessionId, trace.dreamId, trace.jobId)

def turnColumns (turn : ConversationTurn) : ℤ × Option Uuid × Option ℕ × TurnRole × String :=
  (turn.userId, some turn.sessionId, turn.dreamId, turn.role, turn.text)

def dreamColumns (dream : Dream) : ℤ × ℕ × String := (dream.userId, dream.id, dream.text)

def jobColumns (job : AnalysisJob) : Uuid × Option ℕ := (job.id, job.dreamId)

/-- The tables are those of the exchanges. -/
structure Told (db : Database) (exchanges : List Exchange) : Prop where
  traces : db.traces.map traceColumns = exchanges.map Exchange.trace
  turns : db.turns.map turnColumns = exchanges.flatMap Exchange.turns
  dreams : db.dreams.map dreamColumns = exchanges.flatMap Exchange.dreams
  jobs : db.jobs.map jobColumns = exchanges.flatMap Exchange.jobs

/-- The messages that were sent during the requests that were answered with success. -/
def delivered (s : State) : List (String × String) :=
  (s.taken.filter Prod.snd).filterMap fun request => request.1.message

/-- The tables are those of the exchanges, and so are the replies that were delivered; a test
sends none. -/
structure Recorded (config : Config) (s : State) : Prop where
  told : Told s.db s.exchanges
  replies : config.envMode ≠ "test" → delivered s = s.exchanges.flatMap Exchange.replies
  quiet : config.envMode = "test" → ∀ request ∈ s.taken, request.1.message = none

/-! ### A request -/

section Request

variable {db after : Database} {exchanges : List Exchange}

theorem Told.append {exchange : Exchange} (h : Told db exchanges)
    (htraces : after.traces.map traceColumns = db.traces.map traceColumns ++ [exchange.trace])
    (hturns : after.turns.map turnColumns = db.turns.map turnColumns ++ exchange.turns)
    (hdreams : after.dreams.map dreamColumns = db.dreams.map dreamColumns ++ exchange.dreams)
    (hjobs : after.jobs.map jobColumns = db.jobs.map jobColumns ++ exchange.jobs) :
    Told after (exchanges ++ [exchange]) := by
  constructor
  · rw [htraces, h.traces, List.map_append, List.map_singleton]
  · rw [hturns, h.turns, List.flatMap_append, List.flatMap_singleton]
  · rw [hdreams, h.dreams, List.flatMap_append, List.flatMap_singleton]
  · rw [hjobs, h.jobs, List.flatMap_append, List.flatMap_singleton]

/-- What a call of the ingress adds is its exchange. -/
theorem told_of_message {message : TelegramMessage} {evaluation : PolicyEvaluation} {draws : Draws}
    {settings : Settings} {dialogue : Except String DialogueTurn} {result : IngressResult}
    (h : Told db exchanges)
    (hok : processIncomingMessage message.fromUser.id message.text evaluation draws settings db
      dialogue = .ok (result, after)) : Told after (exchanges ++ [⟨message, result⟩]) := by
  unfold processIncomingMessage at hok
  cases hr : evaluation.decision.route <;> simp only [hr] at hok
  case noop =>
    cases hok
    refine h.append ?_ (List.append_nil _).symm (List.append_nil _).symm (List.append_nil _).symm
    rw [List.map_append]
    simp [traceColumns, policyTrace, Exchange.trace, hr]
  case safety | clarification =>
    cases hok
    refine h.append ?_ ?_ (List.append_nil _).symm (List.append_nil _).symm
    · simp [traceColumns, policyTrace, Exchange.trace, ingressResult]
    · simp [turnColumns, userTurn, assistantTurn, Exchange.turns, ingressResult]
  case dialogueTurn =>
    cases dialogue with
    | error => cases hok
    | ok turn =>
      cases hok
      refine h.append ?_ ?_ ?_ ?_ <;> simp only [takeIn, hr, reduceCtorEq, if_false]
      · simp [traceColumns, policyTrace, Exchange.trace, ingressResult]
      · simp [turnColumns, userTurn, assistantTurn, Exchange.turns, ingressResult]
      · exact (List.append_nil _).symm
      · exact (List.append_nil _).symm
  case newDream =>
    cases dialogue with
    | error => cases hok
    | ok turn =>
      cases hok
      refine h.append ?_ ?_ ?_ ?_ <;> simp only [takeIn, hr, if_true, registerIncomingDream]
      · simp [traceColumns, policyTrace, Exchange.trace, ingressResult]
      · simp [turnColumns, userTurn, assistantTurn, Exchange.turns, ingressResult]
      · simp [dreamColumns, Exchange.dreams, ingressResult]
      · simp [jobColumns, Exchange.jobs, ingressResult, newJob]

variable [CharTable] [CaseTable]

omit [CharTable] [CaseTable] in
theorem Config.sent_of_none {config : Config} {delivery : TelegramDeliveryService} {chatId : String}
    {texts : List String} (h : (config.deliver delivery chatId texts).1 = none) :
    (config.deliver delivery chatId texts).2 =
      if config.envMode ≠ "test" then texts.map (.sendMessage chatId) else [] := by
  unfold deliver at h ⊢
  split
  · next htest =>
    rw [if_pos htest] at h
    exact TelegramDeliveryService.sendTexts_of_none h
  · rfl

/-- What comes of a request: it raises and leaves the tables alone, has no message to handle, or
has handled its message and sent the replies. -/
inductive Outcome (config : Config) (update : TelegramUpdate) (db : Database)
    (response : Response) : Prop
  | raised (e : String) (he : response.outcome = .error e) (ht : response.tables = db)
      (hquiet : config.envMode = "test" → ∀ request ∈ response.taken, request.message = none)
  | nothing (he : response.exchange update = []) (ht : response.tables = db)
      (hsent : response.taken = [])
  | handled (message : TelegramMessage) (result : IngressResult) (draws : Draws)
      (dialogue : Except String DialogueTurn) (typing : List Request)
      (he : response.exchange update = [⟨message, result⟩]) (hok : response.outcome.isOk = true)
      (ht : processIncomingMessage message.fromUser.id message.text
        (evaluate db.sessions message.fromUser.id message.text) draws config.settings db dialogue =
          .ok (result, response.tables))
      (htyping : ∀ request ∈ typing, request.message = none)
      (hsent : response.taken = typing ++ if config.envMode ≠ "test" then
        result.outboundMessages.map (.sendMessage (toString message.chatId)) else [])

theorem outcome_telegramWebhook (config : Config) (around : Surroundings)
    (update : TelegramUpdate) (db : Database) :
    Outcome config update db (telegramWebhook config around update db) := by
  unfold telegramWebhook
  cases hmessage : update.message with
  | none => exact .nothing (by simp [Response.exchange, hmessage]) rfl rfl
  | some message =>
    dsimp only
    have htyping : ∀ request ∈ TelegramDeliveryService.trySendTyping
        ⟨config.botToken, around.post⟩ (toString message.chatId), request.message = none :=
      fun _ => TelegramDeliveryService.message_of_typing _ _
    split
    · exact .raised _ rfl rfl fun _ => htyping
    · exact .raised _ rfl rfl fun _ => htyping
    · next result after hreceived _ =>
      obtain ⟨dialogue, hdialogue⟩ := receive_eq (around.companion.prompting config.assets
        ⟨message.fromUser.firstName, message.fromUser.languageCode⟩ around.currentTime)
        config.settings message.fromUser.id message.text around.draws db
      generalize hdelivery : (⟨config.botToken, around.post⟩ : TelegramDeliveryService) = delivery
        at htyping ⊢
      have hquiet : config.envMode = "test" → ∀ request ∈ delivery.trySendTyping
          (toString message.chatId) ++ (config.deliver delivery (toString message.chatId)
            result.outboundMessages).2, request.message = none := by
        intro htest request hrequest
        rw [Config.deliver, if_neg (by simpa using htest), List.append_nil] at hrequest
        exact htyping request hrequest
      split
      · exact .raised _ rfl rfl hquiet
      · exact .raised _ rfl rfl hquiet
      · next hraised _ =>
        refine .handled message result around.draws dialogue _ (by simp [Response.exchange, hmessage])
          rfl (hdialogue.symm.trans hreceived) htyping ?_
        rw [Config.sent_of_none hraised]

variable {config : Config}

omit [CharTable] [CaseTable] in
theorem exchange_of_error {response : Response} {e : String} (h : response.outcome = .error e)
    (update : TelegramUpdate) : response.exchange update = [] := by
  unfold Response.exchange
  rw [h]
  split <;> simp_all

omit [CharTable] [CaseTable] in
theorem delivered_after (s : State) (update : TelegramUpdate) (response : Response) :
    delivered (s.after update response) = delivered s ++
      if response.outcome.isOk then response.taken.filterMap Request.message else [] := by
  simp only [delivered, State.after, List.filter_append, List.filterMap_append, List.filter_map,
    List.filterMap_map]
  congr 1
  cases hok : response.outcome.isOk
  · simp [Function.comp_def]
  · simp [Function.comp_def]

omit [CharTable] [CaseTable] in
theorem quiet_after {s : State} {update : TelegramUpdate} {response : Response}
    (h : ∀ request ∈ s.taken, request.1.message = none)
    (h' : ∀ request ∈ response.taken, request.message = none) :
    ∀ request ∈ (s.after update response).taken, request.1.message = none := by
  intro request hrequest
  rcases List.mem_append.mp hrequest with hrequest | hrequest
  · exact h request hrequest
  · obtain ⟨sent, hsent, rfl⟩ := List.mem_map.mp hrequest
    exact h' sent hsent

/-- The step lemma: a response with success adds its exchange, and has sent the replies; any other
leaves the tables alone. -/
theorem recorded_post {s : State} (h : Recorded config s) (around : Surroundings)
    (update : TelegramUpdate) :
    Recorded config (s.after update (telegramWebhook config around update s.db)) := by
  have houtcome := outcome_telegramWebhook config around update s.db
  generalize telegramWebhook config around update s.db = response at houtcome ⊢
  cases houtcome with
  | raised e he ht hsent =>
    have hnone := exchange_of_error he update
    refine ⟨?_, fun hproduction => ?_, fun htest => quiet_after (h.quiet htest) (hsent htest)⟩
    · rw [State.after, ht, hnone, List.append_nil]
      exact h.told
    · rw [delivered_after, he, h.replies hproduction, State.after, hnone]
      simp [Except.isOk, Except.toBool]
  | nothing hnone ht hsent =>
    refine ⟨?_, fun hproduction => ?_, fun htest => quiet_after (h.quiet htest) (by simp [hsent])⟩
    · rw [State.after, ht, hnone, List.append_nil]
      exact h.told
    · rw [delivered_after, hsent, h.replies hproduction, State.after, hnone]
      simp
  | handled message result draws dialogue typing he hok ht htyping hsent =>
    refine ⟨?_, fun hproduction => ?_, fun htest => quiet_after (h.quiet htest) ?_⟩
    · rw [State.after, he]
      exact told_of_message h.told ht
    · have hmessages : response.taken.filterMap Request.message =
          Exchange.replies ⟨message, result⟩ := by
        rw [hsent, List.filterMap_append, List.filterMap_eq_nil_iff.mpr htyping, if_pos hproduction]
        simp [Exchange.replies, Request.message, Function.comp_def]
      rw [delivered_after, hok, h.replies hproduction, State.after, he, hmessages]
      simp
    · rw [hsent, if_neg (by simpa using htest), List.append_nil]
      exact htyping

end Request

/-! ### A crisis -/

section Crisis

/-- A message with a crisis signal got the reply of the safety route, and is no dream. -/
def Exchange.Safe [CharTable] [CaseTable] (exchange : Exchange) : Prop :=
  isCrisisSignal exchange.message.text = true →
    exchange.result.outboundMessages = [buildSafetyResponse] ∧ exchange.result.dreamId = none

variable [CharTable] [CaseTable] {config : Config}

theorem result_of_crisis {db after : Database} {telegramId : ℤ} {text : String} {draws : Draws}
    {settings : Settings} {dialogue : Except String DialogueTurn} {result : IngressResult}
    (h : isCrisisSignal text = true)
    (hok : processIncomingMessage telegramId text (evaluate db.sessions telegramId text) draws
      settings db dialogue = .ok (result, after)) :
    result.outboundMessages = [buildSafetyResponse] ∧ result.dreamId = none := by
  simp only [processIncomingMessage, route_of_crisis _ _ h, replyFixed, Except.ok.injEq,
    Prod.mk.injEq] at hok
  obtain ⟨rfl, -⟩ := hok
  exact ⟨rfl, rfl⟩

theorem safe_post {s : State} (h : ∀ exchange ∈ s.exchanges, exchange.Safe)
    (around : Surroundings) (update : TelegramUpdate) :
    ∀ exchange ∈ (s.after update (telegramWebhook config around update s.db)).exchanges,
      exchange.Safe := by
  have houtcome := outcome_telegramWebhook config around update s.db
  generalize telegramWebhook config around update s.db = response at houtcome ⊢
  intro exchange hexchange
  rcases List.mem_append.mp hexchange with hexchange | hexchange
  · exact h exchange hexchange
  cases houtcome with
  | raised e he =>
    rw [exchange_of_error he update] at hexchange
    cases hexchange
  | nothing hnone =>
    rw [hnone] at hexchange
    cases hexchange
  | handled message result draws dialogue typing he hok ht =>
    rw [he, List.mem_singleton] at hexchange
    subst hexchange
    exact fun hcrisis => result_of_crisis hcrisis ht

end Crisis

/-! ### The other operations -/

section Operations

variable {db after : Database}

/-- The rows of the messages are the same, in all columns of an exchange. -/
structure SameColumns (db after : Database) : Prop where
  traces : after.traces = db.traces
  turns : after.turns = db.turns
  dreams : after.dreams = db.dreams
  jobs : after.jobs.map jobColumns = db.jobs.map jobColumns

theorem SameColumns.refl (db : Database) : SameColumns db db := ⟨rfl, rfl, rfl, rfl⟩

theorem SameColumns.trans {mid : Database} (h : SameColumns db mid) (h' : SameColumns mid after) :
    SameColumns db after :=
  ⟨h'.1.trans h.1, h'.2.trans h.2, h'.3.trans h.3, h'.4.trans h.4⟩

instance : Std.Refl SameColumns := ⟨.refl⟩

instance : IsTrans Database SameColumns := ⟨fun _ _ _ => .trans⟩

theorem SameColumns.told {exchanges : List Exchange} (hsame : SameColumns db after)
    (h : Told db exchanges) : Told after exchanges where
  traces := hsame.traces ▸ h.traces
  turns := hsame.turns ▸ h.turns
  dreams := hsame.dreams ▸ h.dreams
  jobs := hsame.jobs.trans h.jobs

theorem sameColumns_rewriteJobs {f : AnalysisJob → AnalysisJob}
    (hf : ∀ row, jobColumns (f row) = jobColumns row) :
    SameColumns db { db with jobs := db.jobs.map f } :=
  { SameColumns.refl db with jobs := map_column hf db.jobs }

theorem permits_sameColumns : Writes.Permits (fun _ => True) SameColumns where
  others _ _ _ _ := ⟨rfl, rfl, rfl, rfl⟩
  flags _ _ _ := ⟨rfl, rfl, rfl, rfl⟩
  stored _ _ _ := ⟨rfl, rfl, rfl, rfl⟩
  finished db jobId fin := by
    refine sameColumns_rewriteJobs fun row => ?_
    split
    · cases fin <;> rfl
    · rfl

theorem sameColumns_acquire (db : Database) (limit : ℤ) (lockedBy : String) (now : Time)
    (stale : Option ℤ) (configured : ℤ) : SameColumns db { db with
      jobs := (acquireAvailableJobs db.jobs limit lockedBy now stale configured fun _ => false).2 } := by
  unfold acquireAvailableJobs
  split
  · exact .refl db
  · have hrecovered : SameColumns db { db with jobs := (recoverStaleRunningJobs db.jobs now
        (staleSeconds stale configured) fun _ => false) } := by
      refine sameColumns_rewriteJobs fun row => ?_
      split <;> rfl
    refine hrecovered.trans (sameColumns_rewriteJobs fun row => ?_)
    split <;> rfl

theorem sameColumns_operation [CharTable] {settings : Settings} {e : Journal.Event}
    (hmessage : ∀ telegramId text evaluation draws dialogue,
      e ≠ .message telegramId text evaluation draws dialogue)
    (ht : Journal.step settings db e = some after) : SameColumns db after := by
  cases e with
  | message => exact absurd rfl (hmessage _ _ _ _ _)
  | acquire limit lockedBy now stale configured =>
    cases ht
    exact sameColumns_acquire db limit lockedBy now stale configured
  | execute env deliver job =>
    simp only [Journal.step, Option.ite_none_right_eq_some, Option.some.injEq] at ht
    obtain ⟨-, rfl⟩ := ht
    exact Writes.rel_execute permits_sameColumns (fun _ _ => rfl) (fun _ _ _ => trivial) db
  | buildSummary sessionId id createdAt =>
    simp only [Journal.step] at ht
    split at ht <;> cases ht <;> exact ⟨rfl, rfl, rfl, rfl⟩
  | analyse env sessionId mode =>
    cases ht
    exact Writes.rel_analyse permits_sameColumns (fun _ _ => rfl) (fun _ _ _ => trivial) mode db

end Operations

/-! ### Runs -/

section Runs

variable [CharTable] [CaseTable] {config : Config}

omit [CharTable] [CaseTable] in
theorem recorded_empty (config : Config) : Recorded config .empty :=
  ⟨⟨rfl, rfl, rfl, rfl⟩, fun _ => rfl, fun _ _ h => absurd h List.not_mem_nil⟩

theorem recorded_step {s t : State} {e : Event} (h : Recorded config s)
    (ht : step config s e = some t) : Recorded config t := by
  cases e with
  | post body around =>
    cases body with
    | none => cases ht; exact h
    | some update => cases ht; exact recorded_post h around update
  | operation e =>
    cases e with
    | message => cases ht
    | _ =>
      simp only [step, Option.map_eq_some_iff] at ht
      obtain ⟨db, hdb, rfl⟩ := ht
      exact ⟨(sameColumns_operation (by simp) hdb).told h.told, h.replies, h.quiet⟩

theorem safe_step {s t : State} {e : Event} (h : ∀ exchange ∈ s.exchanges, exchange.Safe)
    (ht : step config s e = some t) : ∀ exchange ∈ t.exchanges, exchange.Safe := by
  cases e with
  | post body around =>
    cases body with
    | none => cases ht; exact h
    | some update => cases ht; exact safe_post h around update
  | operation e =>
    cases e with
    | message => cases ht
    | _ =>
      simp only [step, Option.map_eq_some_iff] at ht
      obtain ⟨db, -, rfl⟩ := ht
      exact h

/-- In every run from empty tables the tables are those of the exchanges, and the replies that were
delivered too, whatever the updates are, whatever the database and Telegram refuse and whatever the
bot does in between. -/
theorem recorded_always (config : Config) (es : List Event) :
    Always (step config) (Recorded config) .empty es :=
  always_of_step (fun _ _ _ => recorded_step) (recorded_empty config) es

/-- No dream in the tables has a text with a crisis signal; and a message with one that was answered
with success got the reply of the safety route, which Telegram has taken. -/
structure Sheltered (config : Config) (s : State) : Prop where
  dreams : ∀ dream ∈ s.db.dreams, isCrisisSignal dream.text = false
  replies : ∀ exchange ∈ s.exchanges, isCrisisSignal exchange.message.text = true →
    exchange.result.outboundMessages = [buildSafetyResponse] ∧
      (config.envMode ≠ "test" →
        (toString exchange.message.chatId, buildSafetyResponse) ∈ delivered s)

theorem sheltered_of_safe {s : State} (h : Recorded config s)
    (hsafe : ∀ exchange ∈ s.exchanges, exchange.Safe) : Sheltered config s := by
  constructor
  · intro dream hdream
    have hcolumns : dreamColumns dream ∈ s.exchanges.flatMap Exchange.dreams :=
      h.told.dreams ▸ List.mem_map_of_mem hdream
    obtain ⟨exchange, hexchange, hmem⟩ := List.mem_flatMap.mp hcolumns
    obtain ⟨id, hid, he⟩ := List.mem_map.mp hmem
    rw [Option.mem_toList] at hid
    have htext : exchange.message.text = dream.text := congrArg (fun columns => columns.2.2) he
    rw [← htext]
    by_contra hcrisis
    rw [(hsafe exchange hexchange (by simpa using hcrisis)).2] at hid
    cases hid
  · intro exchange hexchange hcrisis
    obtain ⟨hreply, -⟩ := hsafe exchange hexchange hcrisis
    refine ⟨hreply, fun hproduction => ?_⟩
    rw [h.replies hproduction, List.mem_flatMap]
    exact ⟨exchange, hexchange, by simp [Exchange.replies, hreply]⟩

/-- In every run from empty tables a crisis is answered as one, and never taken in as a dream. -/
theorem sheltered_always (config : Config) (es : List Event) :
    Always (step config) (Sheltered config) .empty es := by
  have hsafe : Always (step config)
      (fun s => Recorded config s ∧ ∀ exchange ∈ s.exchanges, exchange.Safe) .empty es := by
    exact always_of_step (fun s e t h ht => ⟨recorded_step h.1 ht, safe_step h.2 ht⟩)
      ⟨recorded_empty config, fun _ h => absurd h List.not_mem_nil⟩ es
  exact hsafe.mono fun _ h => sheltered_of_safe h.1 h.2

end Runs

end LiberNovus.Notifications.Webhook

import LiberNovus.Environment
import LiberNovus.Session.Conversation

/-! The ingress with the companion behind it: `generate_dialogue_turn` with its requests to
the provider, and a call of `process_incoming_message` in the transaction of `get_session`.

Proved: a call that raises leaves the tables alone, and one that returns has the effects of
its route and no others; a message with a crisis signal takes in nothing and reaches no
provider. -/

namespace LiberNovus.Session

open Rows LiberNovus.Runtime Dialogue Conversation

/-! ### The companion -/

def dialoguePromptVersion : String := "dialogue_v1"

def formatRecentDialogue (turns : List ConversationTurn) : String :=
  "\n".intercalate (turns.map fun turn =>
    (if turn.role = .user then "Пользователь" else "Спутник") ++ ": " ++ turn.text)

def formatSessionContext : Option SessionSummary → String
  | none => ""
  | some summary =>
    let symbols := if summary.keySymbols = [] then "—" else ", ".intercalate summary.keySymbols
    let wordList :=
      if summary.recurringWords = [] then "—" else ", ".intercalate summary.recurringWords
    s!"dream_count: {summary.dreamCount}\nkey_symbols: {symbols}\nrecurring_words: {wordList}"

def getPreviousUserMessageAt (turns : List ConversationTurn) (sessionId : Uuid) : Option Time :=
  match ((sessionTurns turns sessionId).filter fun turn => turn.role = .user).insertionSort
    Later with
  | _ :: previous :: _ => some previous.createdAt
  | _ => none

/-- What `generate_dialogue_turn` does not decide: the settings, the provider, and the
functions that write the prompt, from the message, the two contexts and the time of the
message before, and that read the reply. -/
structure Companion where
  llmMaxAttempts : ℤ
  getProvider : Except String LLMProvider
  buildDialoguePrompt : (userMessage sessionContext recentDialogue : String) → Option Time →
    Except String String
  parseJson : String → Except String String
  validateDialogueTurn : String → Except String DialogueTurn

section Companion

variable (companion : Companion)

/-- `generate_dialogue_turn`, with the prompts that reach the provider. -/
def Companion.generateDialogueTurn (db : Database) (sessionId : Uuid) (userMessage : String) :
    Except String DialogueTurn × List String :=
  let previousUserAt := getPreviousUserMessageAt db.turns sessionId
  let summary := getSessionSummary db.summaries sessionId
  let recent := listRecentTurns db.turns sessionId 10
  match companion.buildDialoguePrompt userMessage (formatSessionContext summary)
      (formatRecentDialogue recent) previousUserAt, companion.getProvider with
  | .error message, _ | .ok _, .error message => (.error message, [])
  | .ok prompt, .ok llm =>
    let ask := llm.generate prompt dialoguePromptVersion none
    let reply := do
      let raw ← (generateWithRetry companion.llmMaxAttempts llm prompt dialoguePromptVersion
        none).mapError ProviderError.message
      let parsed ← companion.parseJson raw.rawText
      companion.validateDialogueTurn parsed
    (reply, List.replicate (requested ask 1 ((max 1 companion.llmMaxAttempts).toNat - 1)) prompt)

variable [CharTable] [CaseTable] (settings : Settings) (telegramId : ℤ) (text : String)
  (draws : Draws)

/-- `process_incoming_message` with the default router, and the prompts that reach the
provider. -/
def receive (db : Database) : Except String (IngressResult × Database) × List String :=
  let evaluation := evaluate db.sessions telegramId text
  match evaluation.decision.route with
  | .noop | .safety | .clarification =>
    (processIncomingMessage telegramId text evaluation draws settings db
      (.error "generate_dialogue_turn is not called"), [])
  | .newDream | .dialogueTurn =>
    let (session, _, taken) := takeIn telegramId text evaluation draws settings db
    let (dialogue, prompts) := companion.generateDialogueTurn taken session.id text
    (processIncomingMessage telegramId text evaluation draws settings db dialogue, prompts)

structure Handled where
  result : Except String IngressResult
  tables : Database
  prompts : List String

/-- A call in the transaction of `get_session`; `refused` is what the database raises at a
flush or at the commit, where it does. -/
def handleMessage (refused : Option String) (db : Database) : Handled :=
  let (outcome, prompts) := receive companion settings telegramId text draws db
  match outcome, refused with
  | .ok (result, after), none => ⟨.ok result, after, prompts⟩
  | .ok _, some message | .error message, _ => ⟨.error message, db, prompts⟩

end Companion

/-! ### The effects of a route -/

section Effects

variable (telegramId : ℤ) (text : String) (db : Database) (result : IngressResult)
  (after : Database)

/-- One user turn with the text of the message and one assistant turn with the answer are
added, about the dream. -/
def AddsPair (dreamId : Option ℕ) : Prop :=
  ∃ user assistant : ConversationTurn, after.turns = db.turns ++ [user, assistant] ∧
    user.userId = telegramId ∧ user.role = .user ∧ user.text = text ∧ user.dreamId = dreamId ∧
    assistant.userId = telegramId ∧ assistant.role = .assistant ∧ assistant.dreamId = dreamId ∧
    result.outboundMessages = [assistant.text]

/-- One dream with the text of the message and one job for it are added, and a pair of turns
about it. -/
def AddsDream : Prop :=
  ∃ (dream : Dream) (job : AnalysisJob), after.dreams = db.dreams ++ [dream] ∧
    after.jobs = db.jobs ++ [job] ∧ dream.userId = telegramId ∧ dream.text = text ∧
    job.status = .queued ∧ job.attempts = 0 ∧ job.dreamId = some dream.id ∧
    AddsPair telegramId text db result after (some dream.id)

/-- Neither a dream nor a job is added. -/
def TakesNothing : Prop := after.dreams = db.dreams ∧ after.jobs = db.jobs

/-- The table of side effects. -/
def RouteEffects (prompts : List String) : Prop :=
  match result.route with
  | .newDream => AddsDream telegramId text db result after
  | .dialogueTurn => TakesNothing db after ∧ AddsPair telegramId text db result after none
  | .clarification | .safety =>
    TakesNothing db after ∧ AddsPair telegramId text db result after none ∧ prompts = []
  | .noop => TakesNothing db after ∧ after.sessions = db.sessions ∧ after.turns = db.turns ∧
      prompts = []

/-- What a call that returns has done. -/
structure Effects (prompts : List String) : Prop where
  route : RouteEffects telegramId text db result after prompts
  trace : ∃ trace, after.traces = db.traces ++ [trace] ∧ trace.userId = telegramId ∧
    trace.route = result.route
  summaries : after.summaries = db.summaries
  threads : after.threads = db.threads
  analyses : after.analyses = db.analyses
  memories : after.memories = db.memories

end Effects

section Routes

variable {settings : Settings} {telegramId : ℤ} {text : String} {evaluation : PolicyEvaluation}
  {draws : Draws} {db after : Database} {dialogue : Except String DialogueTurn}
  {result : IngressResult}

/-- The effects of a call, given the requests of its route. -/
theorem effects_of_ok {prompts : List String}
    (hp : evaluation.decision.route ∈ [PolicyRoute.noop, .safety, .clarification] → prompts = [])
    (h : processIncomingMessage telegramId text evaluation draws settings db dialogue =
      .ok (result, after)) :
    Effects telegramId text db result after prompts ∧ result.route = evaluation.decision.route := by
  unfold processIncomingMessage at h
  cases hr : evaluation.decision.route with
  | noop =>
    simp only [hr, Except.ok.injEq, Prod.mk.injEq] at h hp
    obtain ⟨rfl, rfl⟩ := h
    exact ⟨⟨⟨⟨rfl, rfl⟩, rfl, rfl, hp (by simp)⟩, ⟨_, rfl, rfl, hr⟩, rfl, rfl, rfl, rfl⟩, rfl⟩
  | safety | clarification =>
    simp only [hr, Except.ok.injEq, replyFixed, ingressResult, Prod.mk.injEq] at h hp
    obtain ⟨rfl, rfl⟩ := h
    refine ⟨⟨⟨⟨rfl, rfl⟩, ?_, hp (by simp)⟩, ⟨_, rfl, rfl, hr⟩, rfl, rfl, rfl, rfl⟩, rfl⟩
    exact ⟨_, _, rfl, rfl, rfl, rfl, rfl, rfl, rfl, rfl, rfl⟩
  | newDream =>
    cases dialogue with
    | error message => simp [hr, bind, Except.bind] at h
    | ok turn =>
      simp only [hr, takeIn, ↓reduceIte, bind, Except.bind, Except.ok.injEq, ingressResult,
        Prod.mk.injEq, registerIncomingDream] at h
      obtain ⟨rfl, rfl⟩ := h
      refine ⟨⟨?_, ⟨_, rfl, rfl, hr⟩, rfl, rfl, rfl, rfl⟩, rfl⟩
      refine ⟨_, _, rfl, rfl, rfl, rfl, rfl, rfl, rfl, ?_⟩
      exact ⟨_, _, List.append_assoc _ _ _, rfl, rfl, rfl, rfl, rfl, rfl, rfl, rfl⟩
  | dialogueTurn =>
    cases dialogue with
    | error message => simp [hr, bind, Except.bind] at h
    | ok turn =>
      simp only [hr, takeIn, reduceCtorEq, ↓reduceIte, bind, Except.bind, Except.ok.injEq,
        ingressResult, Prod.mk.injEq] at h
      obtain ⟨rfl, rfl⟩ := h
      refine ⟨⟨⟨⟨rfl, rfl⟩, ?_⟩, ⟨_, rfl, rfl, hr⟩, rfl, rfl, rfl, rfl⟩, rfl⟩
      exact ⟨_, _, List.append_assoc _ _ _, rfl, rfl, rfl, rfl, rfl, rfl, rfl, rfl⟩

end Routes

/-! ### The contract of the ingress -/

section Contract

variable [CharTable] [CaseTable]

/-- The first rule of the engine. -/
theorem route_of_crisis (sessions : List DreamSession) (userId : ℤ) {text : String}
    (h : isCrisisSignal text = true) :
    (evaluate sessions userId text).decision.route = .safety := by
  have hin : (buildPolicyInput text (resolveSessionState sessions userId)).crisisSignal = true := h
  simp only [evaluate, DialoguePolicyEngine.decide, hin, ↓reduceIte]

variable (companion : Companion) (settings : Settings) {telegramId : ℤ} {text : String}
  (draws : Draws) {db : Database}

theorem receive_fixed (h : (evaluate db.sessions telegramId text).decision.route ∈
      [PolicyRoute.noop, .safety, .clarification]) :
    (receive companion settings telegramId text draws db).2 = [] := by
  unfold receive
  cases hr : (evaluate db.sessions telegramId text).decision.route <;> simp_all

variable (telegramId text db) in
theorem receive_eq : ∃ dialogue, (receive companion settings telegramId text draws db).1 =
    processIncomingMessage telegramId text (evaluate db.sessions telegramId text) draws settings
      db dialogue := by
  unfold receive
  dsimp only
  split <;> exact ⟨_, rfl⟩

/-- A message of a user raises, and then nothing has changed, or has the effects of the route
that the policy decides on. With a crisis signal it takes in nothing and asks nobody. -/
theorem handleMessage_effects (companion : Companion) (settings : Settings) (telegramId : ℤ)
    (text : String) (draws : Draws) (refused : Option String) (db : Database) :
    let handled := handleMessage companion settings telegramId text draws refused db
    (∀ message, handled.result = .error message → handled.tables = db) ∧
    (∀ result, handled.result = .ok result →
      Effects telegramId text db result handled.tables handled.prompts ∧
      result.route = (evaluate db.sessions telegramId text).decision.route) ∧
    (isCrisisSignal text = true →
      TakesNothing db handled.tables ∧ handled.prompts = [] ∧
        ∀ result, handled.result = .ok result → result.route = .safety) := by
  intro handled
  have herr : ∀ message, handled.result = .error message → handled.tables = db := by
    simp only [handled, handleMessage]
    split <;> simp
  have hok : ∀ result, handled.result = .ok result →
      Effects telegramId text db result handled.tables handled.prompts ∧
        result.route = (evaluate db.sessions telegramId text).decision.route := by
    simp only [handled, handleMessage]
    split
    · next result after hout =>
      rintro _ ⟨⟩
      obtain ⟨dialogue, hd⟩ := receive_eq companion settings telegramId text draws db
      exact effects_of_ok (receive_fixed companion settings draws) (hd.symm.trans hout)
    all_goals simp
  have hprompts : isCrisisSignal text = true → handled.prompts = [] := by
    intro hcrisis
    have hfixed := receive_fixed companion settings draws
      (by rw [route_of_crisis db.sessions telegramId hcrisis]; simp)
    simp only [handled, handleMessage]
    split <;> exact hfixed
  refine ⟨herr, hok, fun hcrisis => ⟨?_, hprompts hcrisis, fun result hresult =>
    (hok result hresult).2.trans (route_of_crisis db.sessions telegramId hcrisis)⟩⟩
  cases hresult : handled.result with
  | error message => exact herr message hresult ▸ ⟨rfl, rfl⟩
  | ok result =>
    obtain ⟨heffects, hroute⟩ := hok result hresult
    have htable := heffects.route
    rw [RouteEffects, hroute, route_of_crisis db.sessions telegramId hcrisis] at htable
    exact htable.1

end Contract

end LiberNovus.Session

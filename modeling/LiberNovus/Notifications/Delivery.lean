import LiberNovus.Analysis.Model

/-! The delivery of a completed analysis: the lock in Redis, the message to Telegram, and
the clients both are sent with. Only the sending is wrapped in an exception handler. -/

namespace LiberNovus.Notifications

open LiberNovus.Runtime Analysis

/-- What `SET` answers (the lock is granted or refused) or raises, and what closing the
client does. -/
structure RedisClient where
  set : (key value : String) → (nx : Bool) → (ex : ℕ) → Except String Bool
  aclose : Except String Unit

structure TelegramDelivery where
  sendAnalysis : (chatId : String) → SessionAnalysis → Except String Unit

def deliveryLockTtlSeconds : ℕ := 86400

def deliveryLockKey (jobId : String) : String := "delivery:key:" ++ jobId

def acquireDeliveryLock (redis : RedisClient) (jobId : String) : Except String Bool :=
  redis.set (deliveryLockKey jobId) "1" true deliveryLockTtlSeconds

/-- `_chat_id`; the column `user_id` is never null. -/
def chatId (analysis : SessionAnalysis) : Option String := some (toString analysis.userId)

/-- `deliver_completed_analysis`: whether the message was sent. -/
def deliverCompletedAnalysis (job : AnalysisJob) (analysis : SessionAnalysis) (redis : RedisClient)
    (telegram : TelegramDelivery) : Except String Bool :=
  if job.status ≠ .completed then .ok false
  else if analysis.analysisJobId ≠ some job.id then .ok false
  else
    match acquireDeliveryLock redis (toString job.id) with
    | .error e => .error e
    | .ok false => .ok false
    | .ok true =>
      match chatId analysis with
      | none => .ok false
      | some chatId =>
        match telegram.sendAnalysis chatId analysis with
        | .error _ => .ok false
        | .ok _ => .ok true

/-- The clients of a worker: the injected ones, and those it makes itself. -/
structure DeliveryClients where
  testMode : Bool
  redisClient : Option RedisClient
  telegramDelivery : Option TelegramDelivery
  pooledRedis : RedisClient
  telegramService : TelegramDelivery

namespace DeliveryClients

variable (clients : DeliveryClients)

/-- The Redis client of a delivery. -/
def redis : RedisClient := clients.redisClient.getD clients.pooledRedis

/-- In the tests, without an injected client. -/
def Skips : Prop :=
  clients.testMode = true ∧ clients.redisClient.isNone = true ∧
    clients.telegramDelivery.isNone = true

instance : Decidable clients.Skips := inferInstanceAs (Decidable (_ ∧ _))

/-- `_deliver_completed_analysis` of the executor: a client of its own is closed, whatever
happened before. -/
def deliver (job : AnalysisJob) (analysis : SessionAnalysis) : Except String Unit :=
  if clients.Skips then .ok ()
  else
    let delivered := deliverCompletedAnalysis job analysis clients.redis
      (clients.telegramDelivery.getD clients.telegramService)
    if clients.redisClient.isNone then
      match clients.pooledRedis.aclose with
      | .error e => .error e
      | .ok _ => delivered.map fun _ => ()
    else delivered.map fun _ => ()

/-- A delivery is attempted, and either Redis raises at the lock of the job or the client
that was made for it raises when it is closed. -/
def Raises (jobId : Uuid) : Prop :=
  ¬ clients.Skips ∧ ((∃ e, acquireDeliveryLock clients.redis (toString jobId) = .error e) ∨
    clients.redisClient.isNone = true ∧ ∃ e, clients.pooledRedis.aclose = .error e)

variable {clients} {job : AnalysisJob} {analysis : SessionAnalysis}

/-- Whatever Telegram does is caught. -/
theorem deliverCompletedAnalysis_error (hstatus : job.status = .completed)
    (hbound : analysis.analysisJobId = some job.id) {redis : RedisClient}
    {telegram : TelegramDelivery} {e : String} :
    deliverCompletedAnalysis job analysis redis telegram = .error e ↔
      acquireDeliveryLock redis (toString job.id) = .error e := by
  unfold deliverCompletedAnalysis chatId
  rw [if_neg (not_not.mpr hstatus), if_neg (not_not.mpr hbound)]
  cases acquireDeliveryLock redis (toString job.id) with
  | error e' => simp
  | ok granted =>
    cases granted
    · simp
    · dsimp only
      cases telegram.sendAnalysis (toString analysis.userId) analysis <;> simp

/-- The delivery of a completed job with its bound analysis raises exactly then. -/
theorem deliver_error_iff (clients : DeliveryClients) (hstatus : job.status = .completed)
    (hbound : analysis.analysisJobId = some job.id) :
    (∃ e, clients.deliver job analysis = .error e) ↔ clients.Raises job.id := by
  have herror : ∀ e, (deliverCompletedAnalysis job analysis clients.redis
      (clients.telegramDelivery.getD clients.telegramService)).map (fun _ => ()) = .error e ↔
        acquireDeliveryLock clients.redis (toString job.id) = .error e := by
    intro e
    rw [← deliverCompletedAnalysis_error hstatus hbound]
    cases deliverCompletedAnalysis job analysis clients.redis
      (clients.telegramDelivery.getD clients.telegramService) <;> simp [Except.map]
  unfold deliver Raises
  by_cases hskip : clients.Skips
  · simp [hskip]
  · rw [if_neg hskip]
    by_cases howned : clients.redisClient.isNone = true
    · cases hclose : clients.pooledRedis.aclose <;> simp [hskip, howned, herror]
    · simp [hskip, howned, herror]

end DeliveryClients

end LiberNovus.Notifications

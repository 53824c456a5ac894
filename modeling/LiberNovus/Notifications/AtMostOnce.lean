import Std.Data.String.ToNat
import LiberNovus.Notifications.Delivery
import LiberNovus.Runtime.Worker

/-! At most one message per job. An execution delivers its analysis between the `UPDATE`
that completes the job and the commit, under a key in Redis that expires after a day; when
it dies in between, the job is still running and is executed again.

Proved: along a run no job is sent twice, exactly when every attempt at a delivery is made
within a day of the first one for the same job. -/

namespace LiberNovus.Notifications

open LiberNovus.Runtime Analysis Rows Runs

/-! ### Redis -/

/-- A Redis server: the keys, with the time at which each of them expires. -/
structure Redis where
  expiry : String → Option Time

namespace Redis

variable (redis : Redis) (now : Time)

def Has (key : String) : Prop := ∃ e ∈ redis.expiry key, now < e

instance (key : String) : Decidable (redis.Has now key) :=
  inferInstanceAs (Decidable (∃ e ∈ redis.expiry key, now < e))

/-- `SET` with an expiration: the answer, and the server afterwards. -/
def set (key : String) (nx : Bool) (ex : ℕ) : Bool × Redis :=
  if nx = true ∧ redis.Has now key then (false, redis)
  else (true, ⟨Function.update redis.expiry key (some (now + seconds ex))⟩)

/-- A client that is served at this time. -/
def client : RedisClient := ⟨fun key _ nx ex => .ok (redis.set now key nx ex).1, .ok ()⟩

variable {redis now}

theorem set_of_has {key : String} {ex : ℕ} (h : redis.Has now key) :
    redis.set now key true ex = (false, redis) := if_pos ⟨rfl, h⟩

theorem set_of_not_has {key : String} {ex : ℕ} (h : ¬ redis.Has now key) :
    redis.set now key true ex =
      (true, ⟨Function.update redis.expiry key (some (now + seconds ex))⟩) :=
  if_neg fun hh => h hh.2

end Redis

def lockKey (jobId : Uuid) : String := deliveryLockKey (toString jobId)

theorem lockKey_injective : Function.Injective lockKey := by
  intro i j h
  exact Nat.repr_injective (String.append_right_inj _ |>.mp h)

/-! ### The system -/

/-- The workers, the server and its clock. `delivered` are the executions that have been
through their delivery, `attempts` the calls of `acquire_delivery_lock` with their times,
`sent` the calls of `send_analysis`, one entry for each. -/
structure State where
  worker : Runtime.State
  redis : Redis
  now : Time
  delivered : List ℕ
  attempts : List (Uuid × Time)
  sent : List Uuid

/-- Besides the events of the workers, an execution delivers and time passes. -/
inductive Event where
  | worker (e : Runtime.Event)
  | deliver (a : ℕ)
  | wait (later : Time)
  deriving DecidableEq

namespace State

variable (s : State)

/-- What execution `a` delivers: its job, as `mark_completed` has left it, and its analysis. -/
def due (a : ℕ) : Option (AnalysisJob × SessionAnalysis) := do
  let x ← get s.worker.execs a
  match x.stage with
  | .returned _ =>
    if x.job.dreamId.isNone then
      let analysis ← x.analysis
      let job ← s.worker.jobs.seen (.exec a) x.job.id
      some (job, analysis)
    else none
  | _ => none

/-- The execution still has to deliver. -/
def Owes (a : ℕ) : Prop := (s.due a).isSome ∧ a ∉ s.delivered

instance (a : ℕ) : Decidable (s.Owes a) := inferInstanceAs (Decidable (_ ∧ _))

/-- `deliver_completed_analysis`: whatever Telegram does with the message, it has been sent. -/
def deliver (job : AnalysisJob) (analysis : SessionAnalysis) : State :=
  if job.status ≠ .completed then s
  else if analysis.analysisJobId ≠ some job.id then s
  else
    let (acquired, redis) := s.redis.set s.now (lockKey job.id) true deliveryLockTtlSeconds
    let s := { s with redis := redis, attempts := s.attempts ++ [(job.id, s.now)] }
    if acquired = false then s
    else
      match chatId analysis with
      | none => s
      | some _ => { s with sent := s.sent ++ [job.id] }

end State

/-- The executions that have delivered after an event of a worker. -/
def stillDelivered (delivered : List ℕ) : Runtime.Event → List ℕ
  | .commit a | .abort a => delivered.filter (· ≠ a)
  | _ => delivered

/-- An execution does not commit before it has delivered; it may die at any point. -/
def Waits (s : State) : Runtime.Event → Prop
  | .commit a => s.Owes a
  | _ => False

instance (s : State) : DecidablePred (Waits s) := fun e => by
  unfold Waits
  split <;> infer_instance

def step (s : State) : Event → Option State
  | .worker e =>
    if Waits s e then none
    else do
      let worker ← Runtime.step s.worker e
      some { s with worker := worker, delivered := stillDelivered s.delivered e }
  | .deliver a => do
    let (job, analysis) ← s.due a
    if a ∈ s.delivered then none
    else some { s.deliver job analysis with delivered := a :: s.delivered }
  | .wait later => if s.now ≤ later then some { s with now := later } else none

/-- Nobody is working, and nothing has been delivered. -/
def idle (jobs : List AnalysisJob) (threads : List AnalysisThread)
    (analyses : List SessionAnalysis) (now : Time) : State :=
  ⟨quiet jobs threads analyses, ⟨fun _ => none⟩, now, [], [], []⟩

/-- No job has been sent twice. -/
def AtMostOnce (s : State) : Prop := s.sent.Nodup

/-- The delivery gets as far as the lock. -/
def Attempts (job : AnalysisJob) (analysis : SessionAnalysis) : Prop :=
  job.status = .completed ∧ analysis.analysisJobId = some job.id

instance (job : AnalysisJob) (analysis : SessionAnalysis) : Decidable (Attempts job analysis) :=
  inferInstanceAs (Decidable (_ ∧ _))

/-- Every attempt is made within a day of the earlier attempts for the same job. -/
def WithinADay (s : State) : Event → Prop
  | .deliver a => ∀ d ∈ s.due a, Attempts d.1 d.2 → ∀ t, (d.1.id, t) ∈ s.attempts →
      s.now < t + seconds deliveryLockTtlSeconds
  | _ => True

/-! ### A delivery -/

section Deliver

variable (s : State) (job : AnalysisJob) (analysis : SessionAnalysis)

/-- The state after an attempt that is refused the lock. -/
def refused (id : Uuid) : State := { s with attempts := s.attempts ++ [(id, s.now)] }

/-- The state after an attempt that gets the lock. -/
def granted (id : Uuid) : State :=
  { s with
    redis := ⟨Function.update s.redis.expiry (lockKey id)
      (some (s.now + seconds deliveryLockTtlSeconds))⟩
    attempts := s.attempts ++ [(id, s.now)]
    sent := s.sent ++ [id] }

variable {s job analysis}

theorem deliver_of_not_attempts (h : ¬ Attempts job analysis) : s.deliver job analysis = s := by
  unfold State.deliver
  split
  · rfl
  · next hs =>
    rw [if_pos fun hb => h ⟨not_not.mp hs, hb⟩]

theorem deliver_of_attempts (h : Attempts job analysis) : s.deliver job analysis =
    if s.redis.Has s.now (lockKey job.id) then refused s job.id else granted s job.id := by
  unfold State.deliver
  rw [if_neg (not_not.mpr h.1), if_neg (not_not.mpr h.2)]
  by_cases hhas : s.redis.Has s.now (lockKey job.id)
  · rw [Redis.set_of_has hhas, if_pos hhas]
    rfl
  · rw [Redis.set_of_not_has hhas, if_neg hhas]
    rfl

/-- The message is sent when `deliver_completed_analysis`, served by this server and with a
Telegram that answers, reports that it was. -/
theorem sent_deliver (s : State) (job : AnalysisJob) (analysis : SessionAnalysis)
    (telegram : TelegramDelivery)
    (hok : telegram.sendAnalysis (toString analysis.userId) analysis = .ok ()) :
    (s.deliver job analysis).sent = s.sent ++ [job.id] ↔
      deliverCompletedAnalysis job analysis (s.redis.client s.now) telegram = .ok true := by
  by_cases h : Attempts job analysis
  · have hset : acquireDeliveryLock (s.redis.client s.now) (toString job.id) =
        .ok (s.redis.set s.now (lockKey job.id) true deliveryLockTtlSeconds).1 := rfl
    rw [deliver_of_attempts h, deliverCompletedAnalysis, if_neg (not_not.mpr h.1),
      if_neg (not_not.mpr h.2), hset]
    split
    · next hhas => simp [Redis.set_of_has hhas, refused]
    · next hhas =>
      rw [Redis.set_of_not_has hhas]
      simp only [granted, chatId, hok]
  · rw [deliver_of_not_attempts h, deliverCompletedAnalysis]
    unfold Attempts at h
    split
    · simp
    · rw [if_pos (by tauto)]
      simp

end Deliver

/-! ### The invariant -/

/-- Where a job is: it has never been tried, or it was sent at its first attempt, which
has set the key. -/
inductive Tried (s : State) (id : Uuid) : Prop
  | never (ha : ∀ t, (id, t) ∉ s.attempts) (hk : s.redis.expiry (lockKey id) = none)
      (hs : id ∉ s.sent)
  | sent (t : Time) (hnow : t ≤ s.now) (ha : (id, t) ∈ s.attempts)
      (hfirst : ∀ t', (id, t') ∈ s.attempts → t ≤ t')
      (hk : s.redis.expiry (lockKey id) = some (t + seconds deliveryLockTtlSeconds))
      (hs : id ∈ s.sent)

structure Locked (s : State) : Prop where
  once : AtMostOnce s
  tried : ∀ id, Tried s id

section Steps

variable {s t : State} {e : Event} {id id' : Uuid}

theorem Tried.refused (h : Tried s id) (hhas : s.redis.Has s.now (lockKey id')) :
    Tried (refused s id') id := by
  cases h with
  | never ha hk hs =>
    refine .never (fun t ht => ?_) hk hs
    rcases List.mem_append.mp ht with ht | ht
    · exact ha t ht
    · obtain ⟨rfl, rfl⟩ := Prod.mk.inj (List.mem_singleton.mp ht)
      obtain ⟨e, he, -⟩ := hhas
      rw [hk] at he
      cases he
  | sent t hnow ha hfirst hk hs =>
    refine .sent t hnow (List.mem_append_left _ ha) (fun t' ht' => ?_) hk hs
    rcases List.mem_append.mp ht' with ht' | ht'
    · exact hfirst t' ht'
    · obtain ⟨rfl, rfl⟩ := Prod.mk.inj (List.mem_singleton.mp ht')
      exact hnow

/-- The first attempt for a job. -/
theorem Tried.granted (h : Tried s id) (hnever : ∀ t, (id', t) ∉ s.attempts) :
    Tried (granted s id') id := by
  by_cases hid : id = id'
  · subst hid
    refine .sent s.now le_rfl (by simp [Notifications.granted]) (fun t' ht' => ?_)
      (Function.update_self _ _ _) (by simp [Notifications.granted])
    rcases List.mem_append.mp ht' with ht' | ht'
    · exact absurd ht' (hnever t')
    · exact (Prod.mk.inj (List.mem_singleton.mp ht')).2.ge
  · have hkey : (Notifications.granted s id').redis.expiry (lockKey id) =
        s.redis.expiry (lockKey id) :=
      Function.update_of_ne (fun hk => hid (lockKey_injective hk)) _ _
    have hatt : ∀ t, (id, t) ∈ (Notifications.granted s id').attempts ↔ (id, t) ∈ s.attempts := by
      simp [Notifications.granted, hid]
    have hsent : id ∈ (Notifications.granted s id').sent ↔ id ∈ s.sent := by
      simp [Notifications.granted, hid]
    cases h with
    | never ha hk hs =>
      exact .never (fun t ht => ha t ((hatt t).mp ht)) (hkey.trans hk) (fun h => hs (hsent.mp h))
    | sent t hnow ha hfirst hk hs =>
      exact .sent t hnow ((hatt t).mpr ha) (fun t' ht' => hfirst t' ((hatt t').mp ht'))
        (hkey.trans hk) (hsent.mpr hs)

/-- While the key of an earlier attempt lasts, the lock is refused. -/
theorem Tried.has (h : Tried s id) {t : Time} (ht : (id, t) ∈ s.attempts)
    (hday : ∀ t, (id, t) ∈ s.attempts → s.now < t + seconds deliveryLockTtlSeconds) :
    s.redis.Has s.now (lockKey id) := by
  cases h with
  | never ha => exact absurd ht (ha t)
  | sent t₀ _ ha _ hk => exact ⟨_, hk, hday t₀ ha⟩

/-- After a day it is granted again. -/
theorem Tried.not_has (h : Tried s id) {t : Time} (ht : (id, t) ∈ s.attempts)
    (hday : t + seconds deliveryLockTtlSeconds ≤ s.now) :
    ¬ s.redis.Has s.now (lockKey id) ∧ id ∈ s.sent := by
  cases h with
  | never ha => exact absurd ht (ha t)
  | sent t₀ _ ha hfirst hk hs =>
    refine ⟨?_, hs⟩
    rintro ⟨e, he, hlt⟩
    rw [hk] at he
    obtain rfl := Option.some.inj he
    have hle := hfirst t ht
    unfold Time at hle hday hlt
    omega

/-- What an event does to the server, the attempts and the messages: nothing, or it is a
delivery that gets as far as the lock. -/
theorem cases_of_step (h : step s e = some t) :
    (t.redis = s.redis ∧ s.now ≤ t.now ∧ t.attempts = s.attempts ∧ t.sent = s.sent ∧
      WithinADay s e) ∨
    ∃ a job analysis, e = .deliver a ∧ s.due a = some (job, analysis) ∧ Attempts job analysis ∧
      t = { s.deliver job analysis with delivered := a :: s.delivered } := by
  cases e with
  | worker e =>
    simp only [step, Option.ite_none_left_eq_some, Option.bind_eq_bind, Option.bind_eq_some_iff,
      Option.some.injEq] at h
    obtain ⟨-, worker, -, rfl⟩ := h
    exact .inl ⟨rfl, le_rfl, rfl, rfl, trivial⟩
  | deliver a =>
    simp only [step, Option.bind_eq_bind, Option.bind_eq_some_iff, Option.ite_none_left_eq_some,
      Option.some.injEq, Prod.exists] at h
    obtain ⟨job, analysis, hdue, -, rfl⟩ := h
    by_cases ha : Attempts job analysis
    · exact .inr ⟨a, job, analysis, rfl, hdue, ha, rfl⟩
    · refine .inl ?_
      rw [deliver_of_not_attempts ha]
      refine ⟨rfl, le_rfl, rfl, rfl, fun d hd hatt => ?_⟩
      rw [hdue] at hd
      obtain rfl := Option.some.inj hd
      exact absurd hatt ha
  | wait later =>
    simp only [step, Option.ite_none_right_eq_some, Option.some.injEq] at h
    obtain ⟨hle, rfl⟩ := h
    exact .inl ⟨rfl, hle, rfl, rfl, trivial⟩

theorem sent_sublist (h : step s e = some t) : s.sent.Sublist t.sent := by
  rcases cases_of_step h with ⟨-, -, -, hs, -⟩ | ⟨a, job, analysis, -, -, ha, rfl⟩
  · rw [hs]
  · rw [deliver_of_attempts ha]
    split
    · exact List.Sublist.refl _
    · exact List.sublist_append_left _ _

theorem Tried.congr (h : Tried s id) (hr : t.redis = s.redis) (hn : s.now ≤ t.now)
    (ha : t.attempts = s.attempts) (hs : t.sent = s.sent) : Tried t id := by
  obtain ⟨worker, redis, now, delivered, attempts, sent⟩ := t
  subst hr ha hs
  cases h with
  | never ha hk hs => exact .never ha hk hs
  | sent t hnow ha hfirst hk hs => exact .sent t (hnow.trans hn) ha hfirst hk hs

/-- A delivery within a day of the earlier attempts. -/
theorem Locked.deliver (h : Locked s) {job : AnalysisJob} {analysis : SessionAnalysis}
    (ha : Attempts job analysis) (hday : ∀ t, (job.id, t) ∈ s.attempts →
      s.now < t + seconds deliveryLockTtlSeconds) : Locked (s.deliver job analysis) := by
  rw [deliver_of_attempts ha]
  split
  · next hhas => exact ⟨h.once, fun id => (h.tried id).refused hhas⟩
  · next hhas =>
    have hnever : ∀ t, (job.id, t) ∉ s.attempts := fun t ht => hhas ((h.tried job.id).has ht hday)
    refine ⟨?_, fun id => (h.tried id).granted hnever⟩
    have hnew : job.id ∉ s.sent := by
      cases h.tried job.id with
      | never _ _ hs => exact hs
      | sent t _ ht => exact absurd ht (hnever t)
    show (s.sent ++ [job.id]).Nodup
    rw [← List.concat_eq_append]
    exact h.once.concat hnew

/-- A delivery a day after an earlier attempt sends the job for the second time. -/
theorem Locked.deliver_again (h : Locked s) {job : AnalysisJob} {analysis : SessionAnalysis}
    (ha : Attempts job analysis) {t : Time} (ht : (job.id, t) ∈ s.attempts)
    (hday : t + seconds deliveryLockTtlSeconds ≤ s.now) :
    ¬ AtMostOnce (s.deliver job analysis) := by
  obtain ⟨hhas, hsent⟩ := (h.tried job.id).not_has ht hday
  rw [deliver_of_attempts ha, if_neg hhas]
  intro honce
  exact (List.nodup_append.mp honce).2.2 job.id hsent job.id (List.mem_singleton_self _) rfl

/-- The step lemma. -/
theorem locked_step (h : Locked s) (ht : step s e = some t) (hg : WithinADay s e) : Locked t := by
  rcases cases_of_step ht with ⟨hr, hn, ha, hs, -⟩ | ⟨a, job, analysis, rfl, hdue, ha, rfl⟩
  · exact ⟨by rw [AtMostOnce, hs]; exact h.once, fun id => (h.tried id).congr hr hn ha hs⟩
  · have hl := h.deliver ha (hg _ hdue ha)
    exact ⟨hl.once, fun id => (hl.tried id).congr rfl le_rfl rfl rfl⟩

/-- An event that does not meet the condition sends a job for the second time. -/
theorem withinADay_of_step (h : Locked s) (ht : step s e = some t) (honce : AtMostOnce t) :
    WithinADay s e := by
  rcases cases_of_step ht with ⟨-, -, -, -, hg⟩ | ⟨a, job, analysis, rfl, hdue, ha, rfl⟩
  · exact hg
  · intro d hd hatt t ht
    rw [hdue] at hd
    obtain rfl := Option.some.inj hd
    by_contra hday
    exact h.deliver_again ha ht (not_lt.mp hday) honce

end Steps

theorem locked_idle (jobs : List AnalysisJob) (threads : List AnalysisThread)
    (analyses : List SessionAnalysis) (now : Time) : Locked (idle jobs threads analyses now) :=
  ⟨List.nodup_nil, fun _ => .never (by simp [idle]) rfl (by simp [idle])⟩

/-- No job is ever sent twice, exactly when every attempt at a delivery is made within a
day of the earlier ones for the same job. -/
theorem atMostOnce_iff_withinADay (jobs : List AnalysisJob) (threads : List AnalysisThread)
    (analyses : List SessionAnalysis) (now : Time) (es : List Event) :
    Always step AtMostOnce (idle jobs threads analyses now) es ↔
      Guarded step WithinADay (idle jobs threads analyses now) es := by
  constructor
  · -- a state that has kept the property so far is locked
    refine guarded_of_always (I := fun s => AtMostOnce s → Locked s) ?_ ?_
      fun _ => locked_idle jobs threads analyses now
    · intro s e t h ht honce
      have hl := h (honce.sublist (sent_sublist ht))
      exact locked_step hl ht (withinADay_of_step hl ht honce)
    · exact fun s e t h hs ht honce => withinADay_of_step (h hs) ht honce
  · intro hg
    exact (always_of_guarded (fun s e t h hok ht => locked_step h ht hok)
      (locked_idle jobs threads analyses now) hg).mono fun _ h => h.once

/-! ### Examples -/

namespace AtMostOnce

open Runtime.Example

/-- A worker takes the job, stores its analysis and delivers it. -/
def delivers (p a : ℕ) (workerId : String) (threadId analysisId : Uuid) (now : Time) : List Event :=
  (takes p a workerId now ++ stores a threadId analysisId now ++
    [Runtime.Event.complete a now, .check a, .update a]).map .worker ++ [.deliver a]

/-- The first worker dies before the commit; the job is taken again after 25 hours. -/
def retaken : List Event := delivers 0 0 "worker-a" 100 200 0 ++
  [.worker (.stop 0), .worker (.abort 0), .wait (seconds 90000)] ++
  delivers 1 1 "worker-b" 101 201 (seconds 90000)

theorem run_retaken : (run step (idle [job] [] [] 0) retaken).map State.sent = some [1, 1] := rfl

/-- The user gets two messages for one job. -/
theorem sent_twice : ¬ ∀ jobs threads analyses now es,
    Always step AtMostOnce (idle jobs threads analyses now) es := by
  intro h
  obtain ⟨s, hs, hsent⟩ := Option.map_eq_some_iff.mp run_retaken
  have honce := (h [job] [] [] 0 retaken).of_run hs
  rw [Notifications.AtMostOnce, hsent] at honce
  exact absurd honce (by decide)

end AtMostOnce

end LiberNovus.Notifications

import LiberNovus.Foundation.Ordering
import LiberNovus.Session.Intake

/-! Which session a message ends up in. The ingress resolves the session of a message, the
intake of a dream resolves it once more with clock readings of its own, and the policy has
looked at the sessions before both.

Proved: the rows of a new dream and the result of the message carry one session, which is
active, exactly when the first session is still the newest active one and not stale at the
second reading; and what the policy says about the session is what the ingress does, exactly
when the active session is not stale and no message continues where there is no session. -/

namespace LiberNovus.Session

open Rows LiberNovus.Runtime Dialogue Text

/-- The session has been inactive for longer than `INACTIVITY_THRESHOLD`. -/
def DreamSession.Stale (session : DreamSession) (now : Time) : Prop :=
  session.lastActivityAt < now - inactivityThreshold

instance (session : DreamSession) (now : Time) : Decidable (session.Stale now) :=
  inferInstanceAs (Decidable (_ < _))

theorem DreamSession.Stale.mono {session : DreamSession} {now now' : Time} (h : session.Stale now)
    (hle : now ≤ now') : session.Stale now' := by
  exact lt_of_lt_of_le h (Int.sub_le_sub_right hle _)

/-! ### One resolution -/

section Resolution

variable {sessions : List DreamSession} {userId : ℤ} {id : Uuid} {now createNow startedAt : Time}
  {session : DreamSession}

/-- The rows that `get_active_session_raw` chooses from. -/
def actives (sessions : List DreamSession) (userId : ℤ) : List DreamSession :=
  sessions.filter fun session => session.userId = userId ∧ session.status = .active

@[simp] theorem mem_actives : session ∈ actives sessions userId ↔
    session ∈ sessions ∧ session.userId = userId ∧ session.status = .active := by
  simp [actives]

theorem getActiveSessionRaw_eq : getActiveSessionRaw sessions userId =
    ((actives sessions userId).insertionSort DreamSession.Newer).head? := rfl

theorem mem_actives_of_raw (h : getActiveSessionRaw sessions userId = some session) :
    session ∈ actives sessions userId :=
  (List.mem_insertionSort _).mp (List.mem_of_head? h)

theorem raw_eq_none : getActiveSessionRaw sessions userId = none ↔ actives sessions userId = [] := by
  rw [getActiveSessionRaw_eq, List.head?_eq_none_iff, ← List.length_eq_zero_iff,
    List.length_insertionSort, List.length_eq_zero_iff]

theorem getOrCreate_of_none (h : getActiveSessionRaw sessions userId = none) :
    getOrCreateActiveSession sessions userId id now createNow startedAt =
      createSession sessions userId id createNow startedAt := by
  simp only [getOrCreateActiveSession, ensureActiveSession, h]

theorem getOrCreate_of_stale (h : getActiveSessionRaw sessions userId = some session)
    (hs : session.Stale now) :
    getOrCreateActiveSession sessions userId id now createNow startedAt =
      createSession (closeSession sessions session.id) userId id createNow startedAt := by
  unfold DreamSession.Stale at hs
  simp only [getOrCreateActiveSession, ensureActiveSession, h, hs, if_true]

theorem getOrCreate_of_fresh (h : getActiveSessionRaw sessions userId = some session)
    (hs : ¬ session.Stale now) :
    getOrCreateActiveSession sessions userId id now createNow startedAt = (session, sessions) := by
  unfold DreamSession.Stale at hs
  simp only [getOrCreateActiveSession, ensureActiveSession, h, hs, if_false]

/-- The resolved session is an active one of the user. -/
theorem mem_actives_getOrCreate (sessions : List DreamSession) (userId : ℤ) (id : Uuid)
    (now createNow startedAt : Time) :
    (getOrCreateActiveSession sessions userId id now createNow startedAt).1 ∈
      actives (getOrCreateActiveSession sessions userId id now createNow startedAt).2 userId := by
  cases hraw : getActiveSessionRaw sessions userId with
  | none =>
    rw [getOrCreate_of_none hraw]
    simp [createSession]
  | some session =>
    by_cases hs : session.Stale now
    · rw [getOrCreate_of_stale hraw hs]
      simp [createSession]
    · rw [getOrCreate_of_fresh hraw hs]
      exact mem_actives_of_raw hraw

theorem actives_append (sessions : List DreamSession) (h : session.userId = userId)
    (h' : session.status = .active) :
    actives (sessions ++ [session]) userId = actives sessions userId ++ [session] := by
  simp [actives, h, h']

theorem actives_cons (session : DreamSession) (sessions : List DreamSession) (userId : ℤ) :
    actives (session :: sessions) userId =
      if session.userId = userId ∧ session.status = .active then
        session :: actives sessions userId
      else actives sessions userId := by
  by_cases h : session.userId = userId ∧ session.status = .active <;> simp [actives, h]

/-- Closing a session takes it out of the active ones. -/
theorem actives_closeSession (sessions : List DreamSession) (userId : ℤ) (id : Uuid) :
    actives (closeSession sessions id) userId =
      (actives sessions userId).filter fun session => session.id ≠ id := by
  induction sessions with
  | nil => rfl
  | cons session sessions ih =>
    have hcons : closeSession (session :: sessions) id =
        (if session.id = id then session.closed else session) :: closeSession sessions id := rfl
    rw [hcons, actives_cons, actives_cons, ih]
    by_cases hid : session.id = id
    · by_cases ha : session.userId = userId ∧ session.status = .active <;>
        simp [hid, ha, DreamSession.closed]
    · by_cases ha : session.userId = userId ∧ session.status = .active <;> simp [hid, ha]

instance : Std.Total DreamSession.Newer := ⟨fun a b => le_total b.createdAt a.createdAt⟩

instance : IsTrans DreamSession DreamSession.Newer := ⟨fun _ _ _ h h' => le_trans h' h⟩

/-- A session that was just created is resolved again when it is the newest active one
and the clock has not run on. -/
theorem getOrCreate_created (session : DreamSession) (hu : session.userId = userId)
    (ha : session.status = .active)
    (hnew : ∀ other ∈ sessions, other.id ≠ session.id) (hid : id ≠ session.id) :
    (getOrCreateActiveSession (sessions ++ [session]) userId id now createNow startedAt).1.id =
        session.id ↔
      (∀ other ∈ actives sessions userId, other.createdAt < session.createdAt) ∧
        ¬ session.Stale now := by
  have hraw : getActiveSessionRaw (sessions ++ [session]) userId =
      ((actives sessions userId ++ [session]).insertionSort DreamSession.Newer).head? := by
    rw [getActiveSessionRaw_eq, actives_append sessions hu ha]
  have hnot : session ∉ actives sessions userId := fun hm => hnew session (mem_actives.mp hm).1 rfl
  constructor
  · intro he
    cases hx : getActiveSessionRaw (sessions ++ [session]) userId with
    | none => simp [raw_eq_none, actives_append sessions hu ha] at hx
    | some x =>
      by_cases hs : x.Stale now
      · rw [getOrCreate_of_stale hx hs] at he
        exact absurd he hid
      · rw [getOrCreate_of_fresh hx hs] at he
        have hm := (mem_actives.mp (mem_actives_of_raw hx)).1
        obtain rfl : x = session := by
          rcases List.mem_append.mp hm with hm | hm
          · exact absurd he (hnew x hm)
          · exact List.mem_singleton.mp hm
        rw [hraw] at hx
        refine ⟨fun other ho => ?_, hs⟩
        have hlt := Ordering.not_rel_of_head? hnot hx ho
        exact not_le.mp hlt
  · rintro ⟨hlast, hs⟩
    have hx : getActiveSessionRaw (sessions ++ [session]) userId = some session := by
      rw [hraw]
      apply Ordering.head?_insertionSort (by simp)
      intro other ho hne
      rcases List.mem_append.mp ho with ho | ho
      · exact not_le.mpr (hlast other ho)
      · exact absurd (List.mem_singleton.mp ho) hne
    rw [getOrCreate_of_fresh hx hs]

end Resolution

/-! ### What a message does -/

section Message

variable (telegramId : ℤ) (text : String) (evaluation : PolicyEvaluation) (draws : Draws)

/-- The session as the ingress resolves it, and the sessions after that. -/
def firstResolution (db : Database) : DreamSession × List DreamSession :=
  getOrCreateActiveSession db.sessions telegramId draws.sessionId draws.now draws.createNow
    draws.startedAt

/-- The session as the intake of a dream resolves it. -/
def secondResolution (sessions : List DreamSession) : DreamSession × List DreamSession :=
  getOrCreateActiveSession sessions telegramId draws.sessionId' draws.now' draws.createNow'
    draws.startedAt

/-- The two turns and the trace of a message with a session. -/
structure Exchanged (db : Database) (result : IngressResult) (after : Database) : Prop where
  turns : ∃ turnType dreamId reply metadataJson, after.turns = db.turns ++
    [userTurn telegramId text draws (firstResolution telegramId draws db).1.id turnType dreamId,
      assistantTurn telegramId draws reply (firstResolution telegramId draws db).1.id turnType
        dreamId metadataJson]
  traces : ∃ intake outcome, after.traces = db.traces ++
    [policyTrace telegramId evaluation draws (firstResolution telegramId draws db).1.id intake
      outcome]
  sessionId : result.sessionId = some (firstResolution telegramId draws db).1.id

/-- What a message that does not raise does to the tables, on each kind of route. -/
inductive Outcome (db : Database) (result : IngressResult) (after : Database) : Prop
  | noop (hr : evaluation.decision.route = .noop) (hs : result.sessionId = none)
      (hsessions : after.sessions = db.sessions) (hturns : after.turns = db.turns)
      (hdreams : after.dreams = db.dreams) (hjobs : after.jobs = db.jobs)
  | talk (hr : evaluation.decision.route ≠ .noop) (hr' : evaluation.decision.route ≠ .newDream)
      (he : Exchanged telegramId text evaluation draws db result after)
      (hsessions : after.sessions = updateSessionActivity (firstResolution telegramId draws db).2
        (firstResolution telegramId draws db).1.id draws.startedAt)
      (hdreams : after.dreams = db.dreams) (hjobs : after.jobs = db.jobs)
  | dream (hr : evaluation.decision.route = .newDream)
      (he : Exchanged telegramId text evaluation draws db result after)
      (dream : Dream) (job : AnalysisJob) (session : DreamSession) (sessions : List DreamSession)
      (hsecond : secondResolution telegramId draws (firstResolution telegramId draws db).2 =
        (session, sessions))
      (hsessions : after.sessions = updateSessionActivity sessions session.id draws.startedAt)
      (hdreams : after.dreams = db.dreams ++ [dream]) (hdream : dream.sessionId = session.id)
      (hjobs : after.jobs = db.jobs ++ [job]) (hjob : job.sessionId = session.id)

end Message

section Outcomes

variable {settings : Settings} {db after : Database} {telegramId : ℤ} {text : String}
  {evaluation : PolicyEvaluation} {draws : Draws} {dialogue : Except String DialogueTurn}
  {result : IngressResult}

theorem outcome_of_ok (h : processIncomingMessage telegramId text evaluation draws settings db
    dialogue = .ok (result, after)) :
    Outcome telegramId text evaluation draws db result after ∧
      result.sessionAction = evaluation.decision.sessionAction := by
  unfold processIncomingMessage at h
  cases hr : evaluation.decision.route <;> simp only [hr] at h
  case noop =>
    cases h
    exact ⟨.noop hr rfl rfl rfl rfl rfl, rfl⟩
  case safety | clarification =>
    cases h
    refine ⟨.talk (by simp [hr]) (by simp [hr]) ⟨?_, ?_, rfl⟩ rfl rfl rfl, rfl⟩
    · exact ⟨_, _, _, _, rfl⟩
    · exact ⟨_, _, rfl⟩
  case dialogueTurn =>
    cases dialogue with
    | error => cases h
    | ok turn =>
      cases h
      simp only [takeIn, hr, reduceCtorEq, if_false]
      refine ⟨.talk (by simp [hr]) (by simp [hr]) ⟨?_, ?_, rfl⟩ rfl rfl rfl, rfl⟩
      · exact ⟨_, _, _, _, List.append_assoc _ [_] [_]⟩
      · exact ⟨_, _, rfl⟩
  case newDream =>
    cases dialogue with
    | error => cases h
    | ok turn =>
      cases h
      simp only [takeIn, hr, if_true]
      refine ⟨.dream hr ⟨?_, ?_, rfl⟩ _ _ _ _ rfl rfl rfl rfl rfl rfl, rfl⟩
      · exact ⟨_, _, _, _, List.append_assoc _ [_] [_]⟩
      · exact ⟨_, _, rfl⟩

theorem Outcome.exchanged (ho : Outcome telegramId text evaluation draws db result after)
    (hr : evaluation.decision.route ≠ .noop) :
    Exchanged telegramId text evaluation draws db result after := by
  cases ho with
  | noop hr' => exact absurd hr' hr
  | talk _ _ he => exact he
  | dream _ he => exact he

/-- The session of a message is in the table afterwards. -/
theorem Outcome.session_mem (ho : Outcome telegramId text evaluation draws db result after)
    (hr : evaluation.decision.route ≠ .noop) :
    (firstResolution telegramId draws db).1.id ∈ after.sessions.map key := by
  have hm := (getOrCreateActiveSession_spec db.sessions telegramId draws.sessionId draws.now
    draws.createNow draws.startedAt).1
  cases ho with
  | noop hr' => exact absurd hr' hr
  | talk _ _ _ hsessions =>
    rw [hsessions, keys_updateSessionActivity]
    exact hm
  | dream _ _ _ _ session sessions hsecond hsessions =>
    have hgrow := (getOrCreateActiveSession_spec (firstResolution telegramId draws db).2 telegramId
      draws.sessionId' draws.now' draws.createNow' draws.startedAt).2
    rw [← secondResolution, hsecond] at hgrow
    rw [hsessions, keys_updateSessionActivity]
    exact hgrow hm

end Outcomes

/-! ### One session per intake -/

/-- The new dream, its job, the two turns, the trace and the result carry one session, and
it is active. -/
def OneSession (db : Database) (result : IngressResult) (after : Database) : Prop :=
  ∃ session ∈ after.sessions, session.status = .active ∧
    ∃ dream job user assistant trace, after.dreams = db.dreams ++ [dream] ∧
      after.jobs = db.jobs ++ [job] ∧ after.turns = db.turns ++ [user, assistant] ∧
      user.role = .user ∧ assistant.role = .assistant ∧ after.traces = db.traces ++ [trace] ∧
      dream.sessionId = session.id ∧ job.sessionId = session.id ∧ user.sessionId = session.id ∧
      assistant.sessionId = session.id ∧ trace.sessionId = some session.id ∧
      result.sessionId = some session.id

/-- The session that the ingress creates when it finds none. -/
def Draws.created (draws : Draws) (userId : ℤ) : DreamSession :=
  ⟨draws.sessionId, userId, .active, draws.startedAt, draws.createNow⟩

/-- The first session is still the newest active one, and not stale, at the second reading
of the clock. -/
def Settled (sessions : List DreamSession) (userId : ℤ) (draws : Draws) : Prop :=
  match getActiveSessionRaw sessions userId with
  | none => ¬ (draws.created userId).Stale draws.now'
  | some session =>
    if session.Stale draws.now then
      (∀ other ∈ actives sessions userId, other.id ≠ session.id →
        other.createdAt < draws.startedAt) ∧ ¬ (draws.created userId).Stale draws.now'
    else ¬ session.Stale draws.now'

section OneSession

variable {settings : Settings} {db after : Database} {telegramId : ℤ} {text : String}
  {evaluation : PolicyEvaluation} {draws : Draws} {dialogue : Except String DialogueTurn}
  {result : IngressResult}

theorem ne_of_get_eq_none {sessions : List DreamSession} {id : Uuid} (h : get sessions id = none) :
    ∀ other ∈ sessions, other.id ≠ id := by
  intro other ho he
  exact get_eq_none.mp h (he ▸ List.mem_map_of_mem ho)

/-- A session that the first resolution creates is the one that the second finds, when it
is the newest active one and the clock has not run on. -/
theorem second_of_created {sessions : List DreamSession}
    (hnew : ∀ other ∈ sessions, other.id ≠ draws.sessionId)
    (hne : draws.sessionId ≠ draws.sessionId') :
    (secondResolution telegramId draws (sessions ++ [draws.created telegramId])).1.id =
        draws.sessionId ↔
      (∀ other ∈ actives sessions telegramId, other.createdAt < draws.startedAt) ∧
        ¬ (draws.created telegramId).Stale draws.now' :=
  getOrCreate_created (draws.created telegramId) rfl rfl hnew (Ne.symm hne)

/-- The two resolutions agree when nothing moves between them. -/
theorem resolutions_agree_iff (hf : draws.Fresh db.sessions) :
    (secondResolution telegramId draws (firstResolution telegramId draws db).2).1.id =
        (firstResolution telegramId draws db).1.id ↔ Settled db.sessions telegramId draws := by
  obtain ⟨hnew, hnew', hne⟩ := hf
  have hother := ne_of_get_eq_none hnew
  unfold firstResolution Settled
  cases hraw : getActiveSessionRaw db.sessions telegramId with
  | none =>
    rw [getOrCreate_of_none hraw]
    refine (second_of_created hother hne).trans ?_
    simp [raw_eq_none.mp hraw]
  | some session =>
    by_cases hs : session.Stale draws.now
    · rw [getOrCreate_of_stale hraw hs]
      have hclosed : ∀ other ∈ closeSession db.sessions session.id, other.id ≠ draws.sessionId := by
        intro other ho he
        have hk : draws.sessionId ∈ (closeSession db.sessions session.id).map key :=
          he ▸ List.mem_map_of_mem ho
        rw [closeSession, keys_modify (f := DreamSession.closed) fun _ => rfl] at hk
        exact get_eq_none.mp hnew hk
      refine (second_of_created hclosed hne).trans ?_
      simp [hs, actives_closeSession]
    · rw [getOrCreate_of_fresh hraw hs]
      simp only [hs, if_false]
      have hm := (mem_actives.mp (mem_actives_of_raw hraw)).1
      by_cases hs' : session.Stale draws.now'
      · rw [secondResolution, getOrCreate_of_stale hraw hs']
        exact iff_of_false (ne_of_get_eq_none hnew' session hm).symm (not_not.mpr hs')
      · rw [secondResolution, getOrCreate_of_fresh hraw hs']
        exact iff_of_true rfl hs'

theorem mem_updateSessionActivity {sessions : List DreamSession} {session : DreamSession}
    (startedAt : Time) (h : session ∈ sessions) (hstatus : session.status = .active) :
    ∃ session' ∈ updateSessionActivity sessions session.id startedAt,
      session'.id = session.id ∧ session'.status = .active := by
  refine ⟨_, List.mem_map_of_mem h, ?_⟩
  split <;> exact ⟨rfl, hstatus⟩

/-- The rows of a new dream and the result carry one session, which is active, exactly when
the first session is still the newest active one and not stale at the second reading. -/
theorem oneSession_iff_settled (hf : draws.Fresh db.sessions)
    (hr : evaluation.decision.route = .newDream)
    (h : processIncomingMessage telegramId text evaluation draws settings db dialogue =
      .ok (result, after)) :
    OneSession db result after ↔ Settled db.sessions telegramId draws := by
  rw [← resolutions_agree_iff hf]
  cases (outcome_of_ok h).1 with
  | noop hr' => simp [hr] at hr'
  | talk _ hr' => exact absurd hr hr'
  | dream _ he dream job session sessions hsecond hsessions hdreams hdream hjobs hjob =>
    obtain ⟨⟨_, _, _, _, hturns⟩, ⟨_, _, htraces⟩, hresult⟩ := he
    rw [hsecond]
    constructor
    · rintro ⟨s, -, -, d, j, u, v, t, hd, hj, hu, -, -, ht, hds, -, -, -, -, hrs⟩
      rw [hdreams] at hd
      obtain rfl : dream = d := by simpa using hd
      rw [hresult, Option.some.injEq] at hrs
      exact hdream.symm.trans (hds.trans hrs.symm)
    · intro hid
      have hm := mem_actives_getOrCreate (firstResolution telegramId draws db).2 telegramId
        draws.sessionId' draws.now' draws.createNow' draws.startedAt
      rw [← secondResolution, hsecond, mem_actives] at hm
      obtain ⟨s, hs, hsid, hact⟩ := mem_updateSessionActivity draws.startedAt hm.1 hm.2.2
      rw [← hsessions] at hs
      have hfirst : (firstResolution telegramId draws db).1.id = s.id := hid.symm.trans hsid.symm
      exact ⟨s, hs, hact, dream, job, _, _, _, hdreams, hjobs, hturns, rfl, rfl, htraces,
        hdream.trans hsid.symm, hjob.trans hsid.symm, hfirst, hfirst, congrArg some hfirst,
        hresult.trans (congrArg some hfirst)⟩

end OneSession

/-- The readings of the clock, in the order in which the call takes them. -/
def Draws.Nondecreasing (draws : Draws) : Prop :=
  draws.now ≤ draws.createNow ∧ draws.createNow ≤ draws.now' ∧ draws.now' ≤ draws.createNow' ∧
    draws.createNow' ≤ draws.jobNow

instance (draws : Draws) : Decidable draws.Nondecreasing :=
  inferInstanceAs (Decidable (_ ∧ _))

/-! ### The policy and the ingress -/

section Engine

variable {p : PolicyInput}

/-- The policy answers with `ROUTE_NOOP`. -/
def Ignored (p : PolicyInput) : Prop :=
  p.crisisSignal = false ∧ (p.isEmpty = true ∨ p.textLength = 0)

/-- A continuation signal that reaches the engine's branch for it. -/
def Continues (p : PolicyInput) : Prop :=
  p.crisisSignal = false ∧ ¬ (p.isEmpty = true ∨ p.textLength = 0) ∧
    p.inputType = .continuationSignal

/-- The text is long enough to be a dream of an active session. -/
def IsDream (p : PolicyInput) : Prop :=
  p.crisisSignal = false ∧ ¬ (p.isEmpty = true ∨ p.textLength = 0) ∧ p.inputType = .longText ∧
    minTokensForDream ≤ p.tokenCount

instance (p : PolicyInput) : Decidable (IsDream p) :=
  inferInstanceAs (Decidable (_ ∧ _ ∧ _ ∧ _))

/-- The decisions of the engine in an active session. -/
theorem decide_active (hs : p.sessionState = .active) :
    ((DialoguePolicyEngine.decide p).route = .noop ↔ Ignored p) ∧
      ((DialoguePolicyEngine.decide p).route = .newDream ↔ IsDream p) ∧
      (DialoguePolicyEngine.decide p).sessionAction ≠ .startNew := by
  obtain ⟨text, length, tokens, type, state, empty, crisis⟩ := p
  obtain rfl : state = .active := hs
  simp only [DialoguePolicyEngine.decide, Ignored, IsDream, ← Nat.not_le]
  cases crisis <;> cases empty <;> cases type <;> by_cases hl : length = 0 <;>
    by_cases ht : minTokensForDream ≤ tokens <;> simp [hl, ht]

/-- The decisions of the engine for a user without a session. -/
theorem decide_new (hs : p.sessionState = .new) :
    (DialoguePolicyEngine.decide p).sessionAction = .continue ↔ Continues p := by
  obtain ⟨text, length, tokens, type, state, empty, crisis⟩ := p
  obtain rfl : state = .new := hs
  simp only [DialoguePolicyEngine.decide, Continues, ← Nat.not_le]
  cases crisis <;> cases empty <;> cases type <;> by_cases hl : length = 0 <;>
    by_cases ht : minTokensForDream ≤ tokens <;> simp [hl, ht]

/-- A message without an answer has no session action. -/
theorem sessionAction_of_noop (h : (DialoguePolicyEngine.decide p).route = .noop) :
    (DialoguePolicyEngine.decide p).sessionAction = .none := by
  by_cases hcrisis : p.crisisSignal = true
  · rw [DialoguePolicyEngine.decide, if_pos hcrisis] at h
    cases h
  · by_cases hempty : p.isEmpty = true ∨ p.textLength ≤ 0
    · rw [DialoguePolicyEngine.decide, if_neg hcrisis, if_pos hempty]
    · rw [DialoguePolicyEngine.decide, if_neg hcrisis, if_neg hempty] at h
      -- no other branch ignores the message
      repeat' split at h
      all_goals cases h

end Engine

section Alignment

/-- Every turn and every dream that a call adds is in the session. -/
def RecordedIn (db after : Database) (sessionId : Uuid) : Prop :=
  (∀ turn ∈ after.turns.drop db.turns.length, turn.sessionId = sessionId) ∧
    ∀ dream ∈ after.dreams.drop db.dreams.length, dream.sessionId = sessionId

/-- What the policy says about the session of a message is what the ingress did. -/
structure Aligned (db : Database) (userId : ℤ) (evaluation : PolicyEvaluation)
    (result : IngressResult) (after : Database) : Prop where
  active : evaluation.policyInput.sessionState = .active →
    ∃ session ∈ actives db.sessions userId, RecordedIn db after session.id
  «continue» : result.sessionAction = .continue →
    ∃ session ∈ db.sessions, result.sessionId = some session.id
  startNew : result.sessionAction = .startNew →
    ∃ session ∈ after.sessions, get db.sessions session.id = none ∧
      result.sessionId = some session.id

/-- The active session is not stale when the message reads the clock, or there is none and
the message does not ask to continue one. -/
def Current (sessions : List DreamSession) (userId : ℤ) (p : PolicyInput) (draws : Draws) : Prop :=
  match getActiveSessionRaw sessions userId with
  | none => ¬ Continues p
  | some session =>
    Ignored p ∨ ¬ session.Stale (if IsDream p then draws.now' else draws.now)

variable {settings : Settings} {db after : Database} {telegramId : ℤ} {text : String}
  {evaluation : PolicyEvaluation} {draws : Draws} {dialogue : Except String DialogueTurn}
  {result : IngressResult}

theorem Exchanged.turns_in (he : Exchanged telegramId text evaluation draws db result after) :
    ∀ turn ∈ after.turns.drop db.turns.length,
      turn.sessionId = (firstResolution telegramId draws db).1.id := by
  obtain ⟨_, _, _, _, hturns⟩ := he.turns
  rw [hturns, List.drop_left]
  simp [userTurn, assistantTurn]

/-- The turns of a message show where it was recorded. -/
theorem Exchanged.eq_of_recorded (he : Exchanged telegramId text evaluation draws db result after)
    {sessionId : Uuid} (h : RecordedIn db after sessionId) :
    (firstResolution telegramId draws db).1.id = sessionId := by
  have hin := he.turns_in
  obtain ⟨_, _, _, _, hturns⟩ := he.turns
  have hm : after.turns.drop db.turns.length ≠ [] := by simp [hturns]
  obtain ⟨turn, hturn⟩ := List.exists_mem_of_ne_nil _ hm
  exact (hin turn hturn).symm.trans (h.1 turn hturn)

/-- Without a session the message is aligned unless it is to continue one. -/
theorem aligned_of_none (hf : draws.Fresh db.sessions)
    (hraw : getActiveSessionRaw db.sessions telegramId = none)
    (hstate : evaluation.policyInput.sessionState = .new)
    (hnoop : evaluation.decision.route = .noop → evaluation.decision.sessionAction = .none)
    (ho : Outcome telegramId text evaluation draws db result after)
    (ha : result.sessionAction = evaluation.decision.sessionAction) :
    Aligned db telegramId evaluation result after ↔
      evaluation.decision.sessionAction ≠ .continue := by
  have hactive : evaluation.policyInput.sessionState ≠ .active := by simp [hstate]
  by_cases hr : evaluation.decision.route = .noop
  · rw [hnoop hr] at ha ⊢
    refine iff_of_true ⟨fun h => absurd h hactive, ?_, ?_⟩ (by simp) <;> simp [ha]
  · have hfirst : (firstResolution telegramId draws db).1 = draws.created telegramId := by
      rw [firstResolution, getOrCreate_of_none hraw]
      rfl
    have hs := (ho.exchanged hr).sessionId
    rw [hfirst] at hs
    constructor
    · intro hal hc
      obtain ⟨session, hm, hid⟩ := hal.continue (ha.trans hc)
      rw [hs, Option.some.injEq] at hid
      exact ne_of_get_eq_none hf.1 session hm hid.symm
    · intro hc
      refine ⟨fun h => absurd h hactive, fun h => absurd (ha.symm.trans h) hc, fun _ => ?_⟩
      obtain ⟨session, hm, hid⟩ := List.mem_map.mp (ho.session_mem hr)
      rw [hfirst] at hid
      refine ⟨session, hm, ?_, hs.trans (congrArg some hid.symm)⟩
      rw [show session.id = draws.sessionId from hid]
      exact hf.1

/-- With an active session the message is aligned when it stays in it. -/
theorem aligned_of_some (hf : draws.Fresh db.sessions) {session : DreamSession}
    (hraw : getActiveSessionRaw db.sessions telegramId = some session)
    (hstate : evaluation.policyInput.sessionState = .active)
    (hstart : evaluation.decision.sessionAction ≠ .startNew)
    (hnoop : evaluation.decision.route = .noop → evaluation.decision.sessionAction = .none)
    (hle : draws.now ≤ draws.now')
    (ho : Outcome telegramId text evaluation draws db result after)
    (ha : result.sessionAction = evaluation.decision.sessionAction) :
    Aligned db telegramId evaluation result after ↔
      evaluation.decision.route = .noop ∨ ¬ session.Stale
        (if evaluation.decision.route = .newDream then draws.now' else draws.now) := by
  have hm := mem_actives_of_raw hraw
  have hstart' : result.sessionAction ≠ .startNew := by rwa [ha]
  constructor
  · intro hal
    obtain ⟨s, hs, hrec⟩ := hal.active hstate
    have hold := (mem_actives.mp hs).1
    by_contra hn
    obtain ⟨hr, hstale⟩ := not_or.mp hn
    rw [not_not] at hstale
    have hfirst := (ho.exchanged hr).eq_of_recorded hrec
    have hfresh : ¬ session.Stale draws.now := by
      intro hst
      rw [firstResolution, getOrCreate_of_stale hraw hst] at hfirst
      exact ne_of_get_eq_none hf.1 s hold hfirst.symm
    -- only the second reading can have found the session stale
    cases ho with
    | noop hr' => exact hr hr'
    | talk _ hr' => exact hfresh (by simpa [hr'] using hstale)
    | dream hr' _ dream job s' sessions' hsecond _ hdreams hdream =>
      rw [if_pos hr'] at hstale
      rw [firstResolution, getOrCreate_of_fresh hraw hfresh, secondResolution,
        getOrCreate_of_stale hraw hstale] at hsecond
      have hid := hrec.2 dream (by simp [hdreams])
      obtain rfl := (Prod.mk.inj hsecond).1
      exact ne_of_get_eq_none hf.2.1 s hold (hid.symm.trans hdream)
  · intro hc
    have hfirst : evaluation.decision.route ≠ .noop →
        firstResolution telegramId draws db = (session, db.sessions) := by
      intro hr
      apply getOrCreate_of_fresh hraw
      intro hst
      apply hc.resolve_left hr
      split
      · exact hst.mono hle
      · exact hst
    refine ⟨fun _ => ⟨session, hm, ?_⟩, fun h => ?_, fun h => absurd h hstart'⟩
    · cases ho with
      | noop _ _ _ hturns hdreams => simp [RecordedIn, hturns, hdreams]
      | talk hr _ he _ hdreams =>
        have hin := he.turns_in
        rw [hfirst hr] at hin
        exact ⟨hin, by simp [hdreams]⟩
      | dream hr he dream job s' sessions' hsecond _ hdreams hdream =>
        have hr' : evaluation.decision.route ≠ .noop := by simp [hr]
        have hin := he.turns_in
        rw [hfirst hr'] at hin
        have hfresh : ¬ session.Stale draws.now' := by simpa [hr] using hc.resolve_left hr'
        rw [hfirst hr', secondResolution, getOrCreate_of_fresh hraw hfresh] at hsecond
        obtain rfl := (Prod.mk.inj hsecond).1
        exact ⟨hin, by simp [hdreams, hdream]⟩
    · have hr : evaluation.decision.route ≠ .noop := by
        intro hr
        rw [ha, hnoop hr] at h
        cases h
      have hs := (ho.exchanged hr).sessionId
      rw [hfirst hr] at hs
      exact ⟨session, (mem_actives.mp hm).1, hs⟩

/-- What the policy says about the session of a message is what the ingress does, exactly
when the active session is not stale and no message continues where there is no session. -/
theorem aligned_iff_current [CharTable] [CaseTable] (hf : draws.Fresh db.sessions)
    (hle : draws.now ≤ draws.now')
    (h : processIncomingMessage telegramId text (evaluate db.sessions telegramId text) draws
      settings db dialogue = .ok (result, after)) :
    Aligned db telegramId (evaluate db.sessions telegramId text) result after ↔
      Current db.sessions telegramId
        (buildPolicyInput text (resolveSessionState db.sessions telegramId)) draws := by
  obtain ⟨ho, ha⟩ := outcome_of_ok h
  unfold Current
  cases hraw : getActiveSessionRaw db.sessions telegramId with
  | none =>
    have hstate : resolveSessionState db.sessions telegramId = .new := by
      simp [resolveSessionState, hraw]
    rw [aligned_of_none hf hraw hstate sessionAction_of_noop ho ha]
    exact not_congr (decide_new hstate)
  | some session =>
    have hstate : resolveSessionState db.sessions telegramId = .active := by
      simp [resolveSessionState, hraw]
    obtain ⟨hnoop, hdream, hstart⟩ := decide_active (p := buildPolicyInput text
      (resolveSessionState db.sessions telegramId)) hstate
    rw [aligned_of_some hf hraw hstate hstart sessionAction_of_noop hle ho ha]
    simp only [evaluate, hnoop, hdream]

end Alignment

/-! ### Examples -/

namespace Agreement

/-- User 3 has one active session, last active at 0. -/
def session : DreamSession := ⟨1, 3, .active, 0, 0⟩

def database : Database := ⟨[session], [], [], [], [], [], [], [], []⟩

def settings : Settings := ⟨"mock", "mock-v1", 3⟩

def draws (now now' : Time) : Draws :=
  ⟨11, 12, 5, 20, 30, 31, 40, now, now, now', now', now', now⟩

def reply : Except String DialogueTurn := .ok ⟨"", ""⟩

local instance table : CharTable := ⟨Char.isAlphanum⟩

local instance letterCase : CaseTable := ⟨fun text => text.flatMap lowerLetter, fun a b => a == b⟩

def dream : String := "Мне снилось, как я иду по мосту ночью"

theorem route_dream : (evaluate database.sessions 3 dream).decision.route = .newDream := by rfl

/-- The dream is told to the bot. -/
def told (now now' : Time) : Except String (IngressResult × Database) :=
  processIncomingMessage 3 dream (evaluate database.sessions 3 dream) (draws now now') settings
    database reply

/-- Both readings are within the threshold. -/
theorem oneSession_within : ∃ result after, told 0 1 = .ok (result, after) ∧
    OneSession database result after := by
  have hsettled : Settled database.sessions 3 (draws 0 1) := by
    show ¬ session.Stale 1
    decide
  obtain ⟨result, after, hok⟩ : ∃ result after, told 0 1 = .ok (result, after) := ⟨_, _, rfl⟩
  exact ⟨result, after, hok, (oneSession_iff_settled (by decide) route_dream hok).mpr hsettled⟩

/-- The threshold passes between the two readings: the dream goes to a new session. -/
theorem run_split : ∃ result after,
    told inactivityThreshold (inactivityThreshold + 1) = .ok (result, after) ∧
      after.dreams.map Dream.sessionId = [12] ∧ result.sessionId = some 1 :=
  ⟨_, _, rfl, by decide, by decide⟩

/-- The turns and the result carry the old session, which is closed. -/
theorem intake_splits : ¬ ∀ (settings : Settings) (db : Database) (telegramId : ℤ) (text : String)
    (evaluation : PolicyEvaluation) (draws : Draws) (dialogue : Except String DialogueTurn)
    (result : IngressResult) (after : Database), draws.Fresh db.sessions → draws.Nondecreasing →
    evaluation.decision.route = .newDream →
    processIncomingMessage telegramId text evaluation draws settings db dialogue =
      .ok (result, after) → OneSession db result after := by
  intro h
  obtain ⟨result, after, hok, hdreams, hresult⟩ := run_split
  obtain ⟨s, -, -, d, j, u, v, t, hd, -, -, -, -, -, hds, -, -, -, -, hrs⟩ :=
    h _ _ _ _ _ _ _ _ _ (by decide) (by decide) route_dream hok
  have hid : d.sessionId = 12 := by simpa [hd, database] using hdreams
  rw [hresult, Option.some.injEq, ← hds, hid] at hrs
  exact absurd hrs (by decide)

def said (text : String) (now : Time) (db : Database) : Except String (IngressResult × Database) :=
  processIncomingMessage 3 text (evaluate db.sessions 3 text) (draws now now) settings db reply

theorem aligned_within : ∃ result after, said "добавлю" 0 database = .ok (result, after) ∧
    Aligned database 3 (evaluate database.sessions 3 "добавлю") result after := by
  have hcurrent : Current database.sessions 3
      (buildPolicyInput "добавлю" (resolveSessionState database.sessions 3)) (draws 0 0) := by
    show Ignored _ ∨ ¬ session.Stale _
    exact .inr (by split <;> decide)
  obtain ⟨result, after, hok⟩ : ∃ result after, said "добавлю" 0 database = .ok (result, after) :=
    ⟨_, _, rfl⟩
  exact ⟨result, after, hok, (aligned_iff_current (by decide) (by decide) hok).mpr hcurrent⟩

def emptyDatabase : Database := ⟨[], [], [], [], [], [], [], [], []⟩

/-- A continuation is answered in a new session, both when the active one is stale and when
there is none. -/
theorem run_continuation : ∀ db ∈ [database, emptyDatabase], ∃ result after,
    said "добавлю" (inactivityThreshold + 1) db = .ok (result, after) ∧
      result.sessionAction = .continue ∧ result.sessionId = some 11 := by
  intro db hdb
  rcases List.mem_pair.mp hdb with rfl | rfl
  · exact ⟨_, _, rfl, by decide, by decide⟩
  · exact ⟨_, _, rfl, by decide, by decide⟩

/-- There is at most one active session per user. -/
def OneActive (sessions : List DreamSession) : Prop :=
  ∀ userId, (actives sessions userId).length ≤ 1

theorem continues_nothing : ¬ ∀ (_ : CharTable) (_ : CaseTable) (settings : Settings)
    (db : Database) (telegramId : ℤ) (text : String) (draws : Draws)
    (dialogue : Except String DialogueTurn) (result : IngressResult) (after : Database),
    OneActive db.sessions → draws.Fresh db.sessions → draws.Nondecreasing →
    processIncomingMessage telegramId text (evaluate db.sessions telegramId text) draws settings db
      dialogue = .ok (result, after) →
    Aligned db telegramId (evaluate db.sessions telegramId text) result after := by
  intro h
  obtain ⟨result, after, hok, haction, hid⟩ := run_continuation database (by simp)
  have hone : OneActive database.sessions := fun _ => List.length_filter_le _ _
  obtain ⟨s, hs, hsid⟩ := (h _ _ _ _ _ _ _ _ _ _ hone (by decide) (by decide) hok).continue haction
  rw [hid, List.mem_singleton.mp hs] at hsid
  exact absurd hsid (by decide)

end Agreement

end LiberNovus.Session

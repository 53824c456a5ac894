import LiberNovus.Foundation.Runs
import LiberNovus.Prompts.Compiler
import LiberNovus.Session.Intake

/-! The summary that an analysis loads. The table of summaries is a cache that its two
readers fill and that no writer of dreams keeps in step.

Proved: in a run of intakes, summary requests and analyses every load is coherent with the
dreams next to it, exactly when every dream goes to a session without a cached summary. -/

namespace LiberNovus.Session

open Rows Runs Prompts Dialogue

/-- A call in a transaction of its own; an analysis may roll its transaction back, and a
message whose dialogue fails does. -/
inductive Event where
  | message (telegramId : ℤ) (text : String) (evaluation : PolicyEvaluation) (draws : Draws)
      (dialogue : Except String DialogueTurn)
  | register (telegramId : ℤ) (text : String) (draws : Draws)
  | getSummary (sessionId id : Uuid) (createdAt : Time)
  | analyse (sessionId id : Uuid) (createdAt : Time) (commits : Bool)

section Coherence

variable [CharTable] (settings : Settings)

def step (db : Database) : Event → Option Database
  | .message telegramId text evaluation draws dialogue =>
    if draws.Fresh db.sessions then
      match processIncomingMessage telegramId text evaluation draws settings db dialogue with
      | .ok (_, after) => some after
      | .error _ => some db
    else none
  | .register telegramId text draws =>
    if draws.Fresh db.sessions then some (registerIncomingDream settings db telegramId text draws).2
    else none
  | .getSummary sessionId id createdAt =>
    match cachedSummary db.sessions db.dreams db.summaries sessionId id createdAt with
    | .ok (_, summaries) => some { db with summaries := summaries }
    | .error _ => some db
  | .analyse sessionId id createdAt commits =>
    match loadAnalysisInput db.sessions db.dreams db.summaries sessionId id createdAt with
    | .ok (_, summaries) => some (if commits then { db with summaries := summaries } else db)
    | .error _ => some db

/-- Whatever `load_analysis_input` returns is coherent, and its prompt counts its entries. -/
def LoadsCoherent (db : Database) : Prop :=
  ∀ sessionId id createdAt context after,
    loadAnalysisInput db.sessions db.dreams db.summaries sessionId id createdAt =
      .ok (context, after) →
    context.Coherent ∧
      (analysisPrompt context).context.dreamCount = (analysisPrompt context).dreams.length

omit [CharTable] in
/-- The session that a dream goes to. -/
def landing (db : Database) : Event → Option Uuid
  | .message telegramId _ evaluation draws dialogue =>
    match evaluation.decision.route, dialogue with
    | .newDream, .ok _ =>
      let sessions := (getOrCreateActiveSession db.sessions telegramId draws.sessionId draws.now
        draws.createNow draws.startedAt).2
      some (getOrCreateActiveSession sessions telegramId draws.sessionId' draws.now'
        draws.createNow' draws.startedAt).1.id
    | _, _ => none
  | .register telegramId _ draws =>
    some (getOrCreateActiveSession db.sessions telegramId draws.sessionId' draws.now'
      draws.createNow' draws.startedAt).1.id
  | _ => none

omit [CharTable] in
/-- A dream only goes to a session that has no summary yet. -/
def Uncached (db : Database) (e : Event) : Prop :=
  ∀ sessionId ∈ landing db e, getSessionSummary db.summaries sessionId = none

/-- The foreign key of `session_summaries`. -/
def Referenced (db : Database) : Prop :=
  ∀ summary ∈ db.summaries, summary.sessionId ∈ db.sessions.map key

/-- The cached summaries are those of the dreams there are. -/
def Cached (db : Database) : Prop :=
  ∀ sessionId summary, getSessionSummary db.summaries sessionId = some summary →
    summary.toSummaryContent = summarize (sessionDreams db.dreams sessionId)

end Coherence

/-! ### Effects -/

section Effects

variable [CharTable] {settings : Settings} {db : Database} {e : Event} {t : Database}

/-- What a call does to the sessions, the dreams and the summaries. -/
inductive Effect (db : Database) (e : Event) (t : Database) : Prop
  | none (hl : landing db e = .none) (hk : db.sessions.map key ⊆ t.sessions.map key)
      (hd : t.dreams = db.dreams) (hs : t.summaries = db.summaries)
  | intake (dream : Dream) (hl : landing db e = some dream.sessionId)
      (hm : dream.sessionId ∈ t.sessions.map key) (hk : db.sessions.map key ⊆ t.sessions.map key)
      (hd : t.dreams = db.dreams ++ [dream]) (hs : t.summaries = db.summaries)
  | cache (summary : SessionSummary) (hl : landing db e = .none)
      (hm : summary.sessionId ∈ db.sessions.map key)
      (hn : getSessionSummary db.summaries summary.sessionId = .none)
      (hc : summary.toSummaryContent = summarize (sessionDreams db.dreams summary.sessionId))
      (hk : t.sessions = db.sessions) (hd : t.dreams = db.dreams)
      (hs : t.summaries = db.summaries ++ [summary])

omit [CharTable] in
theorem registerIncomingDream_spec (settings : Settings) (db : Database) (telegramId : ℤ)
    (text : String) (draws : Draws) :
    ∃ dream : Dream,
      dream.sessionId = (getOrCreateActiveSession db.sessions telegramId draws.sessionId'
        draws.now' draws.createNow' draws.startedAt).1.id ∧
      (registerIncomingDream settings db telegramId text draws).2.dreams = db.dreams ++ [dream] ∧
      (registerIncomingDream settings db telegramId text draws).2.summaries = db.summaries ∧
      (registerIncomingDream settings db telegramId text draws).2.sessions.map key =
        (getOrCreateActiveSession db.sessions telegramId draws.sessionId'
          draws.now' draws.createNow' draws.startedAt).2.map key :=
  ⟨_, rfl, rfl, rfl, keys_updateSessionActivity _ _ _⟩

/-- The intake of a dream, once the sessions have grown to `sessions`. -/
theorem effect_of_register (settings : Settings) {telegramId : ℤ} {text : String} {draws : Draws}
    {sessions : List DreamSession} (hgrow : db.sessions.map key ⊆ sessions.map key)
    (hl : landing db e = some (getOrCreateActiveSession sessions telegramId draws.sessionId'
      draws.now' draws.createNow' draws.startedAt).1.id)
    (hk : t.sessions = (registerIncomingDream settings { db with sessions := sessions } telegramId
      text draws).2.sessions)
    (hd : t.dreams = (registerIncomingDream settings { db with sessions := sessions } telegramId
      text draws).2.dreams)
    (hs : t.summaries = db.summaries) : Effect db e t := by
  obtain ⟨dream, hdream, hdreams, -, hkeys⟩ :=
    registerIncomingDream_spec settings { db with sessions := sessions } telegramId text draws
  obtain ⟨hm, hgrow'⟩ := getOrCreateActiveSession_spec sessions telegramId draws.sessionId'
    draws.now' draws.createNow' draws.startedAt
  refine .intake dream (hdream ▸ hl) ?_ ?_ (hd.trans hdreams) hs
  · rw [hdream, hk, hkeys]
    exact hm
  · rw [hk, hkeys]
    exact List.Subset.trans hgrow hgrow'

theorem effect_of_message {telegramId : ℤ} {text : String} {evaluation : PolicyEvaluation}
    {draws : Draws} {dialogue : Except String DialogueTurn} {result : IngressResult}
    (h : processIncomingMessage telegramId text evaluation draws settings db dialogue =
      .ok (result, t)) : Effect db (.message telegramId text evaluation draws dialogue) t := by
  have hgrow : ∀ sessionId, db.sessions.map key ⊆ (updateSessionActivity
      (getOrCreateActiveSession db.sessions telegramId draws.sessionId draws.now
        draws.createNow draws.startedAt).2 sessionId draws.startedAt).map key := by
    intro sessionId
    rw [keys_updateSessionActivity]
    exact (getOrCreateActiveSession_spec _ _ _ _ _ _).2
  unfold processIncomingMessage at h
  cases hr : evaluation.decision.route <;> simp only [hr] at h
  case noop =>
    cases h
    exact .none (by simp [landing, hr]) (List.Subset.refl _) rfl rfl
  case safety | clarification =>
    cases h
    exact .none (by simp [landing, hr]) (hgrow _) rfl rfl
  case dialogueTurn =>
    cases dialogue with
    | error => cases h
    | ok turn =>
      cases h
      simp only [takeIn, hr, reduceCtorEq, if_false]
      exact .none (by simp [landing, hr]) (hgrow _) rfl rfl
  case newDream =>
    cases dialogue with
    | error => cases h
    | ok turn =>
      cases h
      simp only [takeIn, hr, if_true]
      exact effect_of_register settings (getOrCreateActiveSession_spec _ _ _ _ _ _).2
        (by simp [landing, hr]) rfl rfl rfl

/-- A summary that was not cached comes from the dreams there are. -/
theorem effect_of_cachedSummary {sessionId id : Uuid} {createdAt : Time} {summary : SessionSummary}
    {after : List SessionSummary} (hl : landing db e = .none)
    (h : cachedSummary db.sessions db.dreams db.summaries sessionId id createdAt =
      .ok (summary, after)) : Effect db e { db with summaries := after } := by
  rcases cachedSummary_ok h with ⟨-, rfl⟩ | ⟨hn, rfl, rfl, ⟨session, hg, -⟩, hc⟩
  · exact .none hl (List.Subset.refl _) rfl rfl
  · have hm : summary.sessionId ∈ db.sessions.map key :=
      List.mem_map.mpr ⟨session, mem_of_get hg, key_of_get hg⟩
    exact .cache summary hl hm hn hc rfl rfl rfl

omit [CharTable] in
/-- Only the dialogue raises. -/
theorem dialogue_of_error {telegramId : ℤ} {text : String} {evaluation : PolicyEvaluation}
    {draws : Draws} {dialogue : Except String DialogueTurn} {message : String}
    (h : processIncomingMessage telegramId text evaluation draws settings db dialogue =
      .error message) : ∃ m, dialogue = .error m := by
  unfold processIncomingMessage at h
  cases dialogue with
  | error m => exact ⟨m, rfl⟩
  | ok turn => cases hr : evaluation.decision.route <;> simp only [hr] at h <;> cases h

theorem effect_of_step (h : step settings db e = some t) : Effect db e t := by
  cases e with
  | message telegramId text evaluation draws dialogue =>
    simp only [step, Option.ite_none_right_eq_some] at h
    obtain ⟨-, h⟩ := h
    split at h <;> cases h
    · exact effect_of_message ‹_›
    · next message he =>
      obtain ⟨m, rfl⟩ := dialogue_of_error he
      exact .none (by simp [landing]) (List.Subset.refl _) rfl rfl
  | register telegramId text draws =>
    simp only [step, Option.ite_none_right_eq_some, Option.some.injEq] at h
    obtain ⟨-, rfl⟩ := h
    exact effect_of_register settings (List.Subset.refl _) rfl rfl rfl rfl
  | getSummary sessionId id createdAt =>
    simp only [step] at h
    split at h <;> cases h
    · exact effect_of_cachedSummary rfl ‹_›
    · exact .none rfl (List.Subset.refl _) rfl rfl
  | analyse sessionId id createdAt commits =>
    simp only [step] at h
    split at h <;> cases h
    · next context summaries he =>
      obtain ⟨-, -, hc⟩ := loadAnalysisInput_ok he
      cases commits
      · exact .none rfl (List.Subset.refl _) rfl rfl
      · exact effect_of_cachedSummary rfl hc
    · exact .none rfl (List.Subset.refl _) rfl rfl

end Effects

/-! ### Coherence -/

section Cached

variable [CharTable] {settings : Settings} {db t : Database} {e : Event}

theorem Referenced.step (h : Referenced db) (he : Effect db e t) : Referenced t := by
  cases he with
  | none _ hk _ hs | intake _ _ _ hk _ hs =>
    intro summary hm
    rw [hs] at hm
    exact hk (h summary hm)
  | cache new _ hm _ _ hk _ hs =>
    intro summary hm'
    rw [hs] at hm'
    rw [hk]
    rcases List.mem_append.mp hm' with hm' | hm'
    · exact h summary hm'
    · rw [List.mem_singleton.mp hm']
      exact hm

/-- A load returns what is cached, or computes it. -/
theorem loadsCoherent_iff_cached (h : Referenced db) : LoadsCoherent db ↔ Cached db := by
  constructor
  · intro hl sessionId summary hs
    have hsum : summary ∈ db.summaries := List.mem_of_find?_eq_some hs
    have hid : summary.sessionId = sessionId := by simpa using List.find?_some hs
    have hne : get db.sessions sessionId ≠ none := by
      rw [Ne, get_eq_none, not_not, ← hid]
      exact h summary hsum
    obtain ⟨session, hg⟩ := Option.ne_none_iff_exists'.mp hne
    refine (hl sessionId 0 0 ⟨session, summary, sessionDreams db.dreams sessionId⟩ db.summaries ?_).1
    simp only [loadAnalysisInput, hg, cachedSummary, hs]
    rfl
  · intro hc sessionId id createdAt context after hload
    obtain ⟨-, hdreams, hcached⟩ := loadAnalysisInput_ok hload
    have hcoh : context.Coherent := by
      rw [AnalysisInputContext.Coherent, hdreams]
      rcases cachedSummary_ok hcached with ⟨hs, -⟩ | ⟨-, -, -, -, hs⟩
      · exact hc sessionId _ hs
      · exact hs
    exact ⟨hcoh, dreamCount_of_coherent hcoh⟩

omit [CharTable] in
theorem sessionDreams_append_of_ne {dreams : List Dream} {dream : Dream} {sessionId : Uuid}
    (h : dream.sessionId ≠ sessionId) :
    sessionDreams (dreams ++ [dream]) sessionId = sessionDreams dreams sessionId := by
  simp [sessionDreams, h]

omit [CharTable] in
theorem length_sessionDreams_append (dreams : List Dream) (dream : Dream) :
    (sessionDreams (dreams ++ [dream]) dream.sessionId).length =
      (sessionDreams dreams dream.sessionId).length + 1 := by
  simp [sessionDreams, (List.perm_insertionSort _ _).length_eq]

/-- The step lemma: a dream that goes to a session without a summary leaves the cache in
order. -/
theorem Cached.step (h : Cached db) (hok : Uncached db e) (he : Effect db e t) : Cached t := by
  intro sessionId summary hs
  cases he with
  | none _ _ hd hsum =>
    rw [hsum] at hs
    rw [hd]
    exact h sessionId summary hs
  | intake dream hl _ _ hd hsum =>
    rw [hsum] at hs
    rw [hd, sessionDreams_append_of_ne]
    · exact h sessionId summary hs
    · rintro rfl
      rw [hok _ hl] at hs
      cases hs
  | cache new _ _ _ hc _ hd hsum =>
    rw [hd]
    rw [hsum, getSessionSummary, List.find?_append] at hs
    rcases Option.or_eq_some_iff.mp hs with hs | ⟨-, hs⟩
    · exact h sessionId summary hs
    · obtain rfl := List.mem_singleton.mp (List.mem_of_find?_eq_some hs)
      have hid : summary.sessionId = sessionId := by simpa using List.find?_some hs
      rw [← hid]
      exact hc

/-- A dream that goes to a session with a summary puts the cache out of order: the
summary counts one dream less. -/
theorem Cached.uncached (h : Cached db) (he : Effect db e t) (ht : Cached t) : Uncached db e := by
  intro sessionId hl
  cases he with
  | none hl' | cache _ hl' => rw [hl'] at hl; cases hl
  | intake dream hl' _ _ hd hsum =>
    rw [hl', Option.mem_def, Option.some.injEq] at hl
    subst hl
    by_contra hne
    obtain ⟨summary, hs⟩ := Option.ne_none_iff_exists'.mp hne
    have hbefore := congrArg SummaryContent.dreamCount (h _ summary hs)
    have hafter := congrArg SummaryContent.dreamCount (ht _ summary (hsum ▸ hs))
    rw [hbefore, hd] at hafter
    simp only [summarize, length_sessionDreams_append] at hafter
    omega

end Cached

/-- In a run of intakes, summary requests and analyses every load is coherent, exactly
when every dream goes to a session without a cached summary. -/
theorem loadsCoherent_iff_uncached [CharTable] (settings : Settings) {db : Database}
    (hr : Referenced db) (hc : LoadsCoherent db) (es : List Event) :
    Always (step settings) LoadsCoherent db es ↔ Guarded (step settings) Uncached db es := by
  constructor
  · refine guarded_of_always (I := Referenced) (fun s e t h ht => h.step (effect_of_step ht)) ?_ hr
    intro s e t h hs ht hl
    have he := effect_of_step ht
    exact ((loadsCoherent_iff_cached h).mp hs).uncached he
      ((loadsCoherent_iff_cached (h.step he)).mp hl)
  · intro hg
    have hinv : Always (step settings) (fun db => Referenced db ∧ Cached db) db es :=
      always_of_guarded (G := Uncached) (fun s e t h hok ht =>
        ⟨h.1.step (effect_of_step ht), h.2.step hok (effect_of_step ht)⟩)
        ⟨hr, (loadsCoherent_iff_cached hr).mp hc⟩ hg
    exact hinv.mono fun s h => (loadsCoherent_iff_cached h.1).mpr h.2

/-! ### Examples -/

namespace Coherence

local instance table : CharTable := ⟨Char.isAlphanum⟩

instance (db : Database) (e : Event) : Decidable (Uncached db e) :=
  inferInstanceAs (Decidable (∀ sessionId ∈ landing db e, _))

def emptyDatabase : Database := ⟨[], [], [], [], [], [], [], [], []⟩

theorem referenced_empty : Referenced emptyDatabase := by simp [Referenced, emptyDatabase]

theorem loadsCoherent_empty : LoadsCoherent emptyDatabase :=
  (loadsCoherent_iff_cached referenced_empty).mpr (by
    simp [Cached, emptyDatabase, getSessionSummary])

def settings : Settings := ⟨"mock", "mock-v1", 3⟩

/-- The dream number `n` of user 3, an hour after the one before. -/
def dream (n : ℕ) (text : String) : Event :=
  let now : Time := seconds (3600 * n)
  .register 3 text ⟨2 * n + 1, 2 * n + 2, n, n, n, n, n, now, now, now, now, now, now⟩

/-- Both dreams come before the analysis. -/
def before : List Event := [dream 0 "дом", dream 1 "лес", .analyse 2 20 (seconds 7200) true]

theorem loadsCoherent_before : Always (step settings) LoadsCoherent emptyDatabase before :=
  (loadsCoherent_iff_uncached settings referenced_empty loadsCoherent_empty before).mpr (by decide)

/-- The summary is requested after the first dream. -/
def between : List Event := [dream 0 "дом", .getSummary 2 20 (seconds 60), dream 1 "лес"]

theorem run_between : (run (step settings) emptyDatabase between).map (fun db =>
    match loadAnalysisInput db.sessions db.dreams db.summaries 2 21 0 with
    | .ok (context, _) => (context.sessionSummary.dreamCount, context.dreams.length)
    | .error _ => (0, 0)) = some (1, 2) := by
  decide

/-- An analysis of the two dreams is told that there is one. -/
theorem stale_summary : ¬ ∀ (_ : CharTable) (settings : Settings) (db : Database), Referenced db →
    LoadsCoherent db → ∀ es, Always (step settings) LoadsCoherent db es := by
  intro h
  obtain ⟨db, hdb, hl⟩ := Option.map_eq_some_iff.mp run_between
  have hcoh := (h table settings emptyDatabase referenced_empty loadsCoherent_empty between).of_run hdb
  split at hl
  · next context after hload =>
    obtain ⟨hcount, hlength⟩ := Prod.mk.inj hl
    have hc := congrArg SummaryContent.dreamCount (hcoh _ _ _ _ _ hload).1
    rw [hcount] at hc
    exact absurd (hc.trans hlength) (by decide)
  · cases hl

end Coherence

end LiberNovus.Session

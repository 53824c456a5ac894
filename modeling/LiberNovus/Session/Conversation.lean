import LiberNovus.Foundation.Runs
import LiberNovus.Session.Agreement

/-! The conversation of a session, as `list_recent_turns` reads it: by the time of the
transaction and then by the identifier, although each transaction writes two turns.

Proved: in a run of messages, one after another, every limit returns the last turns in the
order in which they were appended, exactly when the user turn of each answered message has
the smaller identifier. -/

namespace LiberNovus.Session

open Rows Runs LiberNovus.Runtime Dialogue

instance : Keyed ConversationTurn Uuid := ⟨ConversationTurn.id⟩

@[simp] theorem key_turn (turn : ConversationTurn) : key turn = turn.id := rfl

namespace Conversation

/-- `ORDER BY created_at DESC, id DESC`. -/
def Later (a b : ConversationTurn) : Prop :=
  b.createdAt < a.createdAt ∨ b.createdAt = a.createdAt ∧ b.id ≤ a.id

instance : DecidableRel Later := fun _ _ => inferInstanceAs (Decidable (_ ∨ _))

/-- The turns of a session, in the order in which they were appended. -/
def sessionTurns (turns : List ConversationTurn) (sessionId : Uuid) : List ConversationTurn :=
  turns.filter fun turn => turn.sessionId = sessionId

def listRecentTurns (turns : List ConversationTurn) (sessionId : Uuid) (limit : ℕ) :
    List ConversationTurn :=
  (((sessionTurns turns sessionId).insertionSort Later).take limit).reverse

/-- User turns, each directly followed by the assistant turn of the same transaction. -/
inductive Exchanges : List ConversationTurn → Prop
  | nil : Exchanges []
  | cons {user assistant : ConversationTurn} {rest : List ConversationTurn}
      (hu : user.role = .user) (ha : assistant.role = .assistant)
      (ht : assistant.createdAt = user.createdAt) (hr : Exchanges rest) :
      Exchanges (user :: assistant :: rest)

/-- Every limit returns the last turns in the order in which they were appended, and all of
them are exchanges. -/
def InOrder (db : Database) : Prop :=
  ∀ sessionId, (∀ limit, listRecentTurns db.turns sessionId limit =
      (sessionTurns db.turns sessionId).drop ((sessionTurns db.turns sessionId).length - limit)) ∧
    Exchanges (listRecentTurns db.turns sessionId (sessionTurns db.turns sessionId).length)

/-- A call of `process_incoming_message`. -/
structure Call where
  telegramId : ℤ
  text : String
  evaluation : PolicyEvaluation
  draws : Draws
  dialogue : Except String DialogueTurn

/-- The identifiers of the turns are new, and so is the time of the transaction. -/
def Call.Next (call : Call) (turns : List ConversationTurn) : Prop :=
  get turns call.draws.userTurnId = none ∧ get turns call.draws.assistantTurnId = none ∧
    call.draws.userTurnId ≠ call.draws.assistantTurnId ∧
    ∀ turn ∈ turns, turn.createdAt < call.draws.startedAt

instance (call : Call) (turns : List ConversationTurn) : Decidable (call.Next turns) :=
  inferInstanceAs (Decidable (_ ∧ _ ∧ _ ∧ _))

/-- The tables after a call in a transaction of its own; a call that raises is rolled back. -/
def step (settings : Settings) (db : Database) (call : Call) : Option Database :=
  if call.Next db.turns then
    match processIncomingMessage call.telegramId call.text call.evaluation call.draws settings db
        call.dialogue with
    | .ok (_, after) => some after
    | .error _ => some db
  else none

/-- The message gets an answer. -/
def Call.Answered (call : Call) : Prop :=
  call.evaluation.decision.route ∈ [PolicyRoute.safety, .clarification] ∨
    call.evaluation.decision.route ∈ [PolicyRoute.newDream, .dialogueTurn] ∧
      call.dialogue.isOk = true

instance (call : Call) : Decidable call.Answered := inferInstanceAs (Decidable (_ ∨ _))

/-- The user turn of an answered message has the smaller identifier. -/
def UserFirst (_ : Database) (call : Call) : Prop :=
  call.Answered → call.draws.userTurnId < call.draws.assistantTurnId

instance (db : Database) (call : Call) : Decidable (UserFirst db call) :=
  inferInstanceAs (Decidable (_ → _))

/-! ### The order of a table -/

section Order

variable {turns : List ConversationTurn} {sessionId : Uuid}

instance : Std.Total Later := ⟨fun a b => by unfold Later Time Uuid; omega⟩

instance : IsTrans ConversationTurn Later := ⟨fun a b c => by unfold Later Time Uuid; omega⟩

/-- Sorting gives the appended turns back when each of them is later than those before. -/
theorem insertionSort_eq_reverse (hk : DistinctKeys turns)
    (h : turns.Pairwise fun a b => Later b a) : turns.insertionSort Later = turns.reverse := by
  have hp : (turns.insertionSort Later).Perm turns.reverse :=
    (List.perm_insertionSort _ _).trans (List.reverse_perm _).symm
  refine hp.eq_of_pairwise ?_ (List.pairwise_insertionSort _ _) (List.pairwise_reverse.mpr h)
  intro a b ha hb hab hba
  have hid : a.id = b.id := by
    unfold Later Time Uuid at hab hba
    unfold Uuid
    omega
  exact List.inj_on_of_nodup_map hk ((List.mem_insertionSort _).mp ha) (List.mem_reverse.mp hb) hid

/-- Every limit returns the last turns when each turn is later than those before. -/
theorem listRecentTurns_iff (hk : DistinctKeys turns) (sessionId : Uuid) :
    (∀ limit, listRecentTurns turns sessionId limit =
        (sessionTurns turns sessionId).drop ((sessionTurns turns sessionId).length - limit)) ↔
      (sessionTurns turns sessionId).Pairwise fun a b => Later b a := by
  have hk' : DistinctKeys (sessionTurns turns sessionId) :=
    hk.sublist (List.filter_sublist.map _)
  constructor
  · intro h
    have hall := h (sessionTurns turns sessionId).length
    rw [listRecentTurns, Nat.sub_self, List.drop_zero, List.take_of_length_le
      (List.length_insertionSort _ _).le] at hall
    rw [← hall, List.pairwise_reverse]
    exact List.pairwise_insertionSort _ _
  · intro h limit
    rw [listRecentTurns, insertionSort_eq_reverse hk' h, List.take_reverse, List.reverse_reverse]

theorem sessionTurns_append (turns new : List ConversationTurn) (sessionId : Uuid) :
    sessionTurns (turns ++ new) sessionId =
      sessionTurns turns sessionId ++ sessionTurns new sessionId := List.filter_append ..

end Order

/-! ### The invariant -/

/-- The turns have distinct identifiers, and those of a session are exchanges. -/
structure Wf (db : Database) : Prop where
  distinct : DistinctKeys db.turns
  exchanges : ∀ sessionId, Exchanges (sessionTurns db.turns sessionId)

theorem Exchanges.append {turns new : List ConversationTurn} (h : Exchanges turns)
    (hn : Exchanges new) : Exchanges (turns ++ new) := by
  induction h with
  | nil => exact hn
  | cons hu ha ht _ ih => exact .cons hu ha ht ih

section Step

variable {settings : Settings} {db t : Database} {call : Call}

/-- The turns of every session are ordered by time and identifier. -/
def Sorted (db : Database) : Prop :=
  ∀ sessionId, (sessionTurns db.turns sessionId).Pairwise fun a b => Later b a

theorem inOrder_iff_sorted (hw : Wf db) : InOrder db ↔ Sorted db := by
  constructor
  · exact fun h sessionId => (listRecentTurns_iff hw.distinct sessionId).mp (h sessionId).1
  · intro h sessionId
    have hall := (listRecentTurns_iff hw.distinct sessionId).mpr (h sessionId)
    refine ⟨hall, ?_⟩
    rw [hall, Nat.sub_self, List.drop_zero]
    exact hw.exchanges sessionId

theorem wf_of_inOrder (hk : DistinctKeys db.turns) (h : InOrder db) : Wf db := by
  refine ⟨hk, fun sessionId => ?_⟩
  have hx := (h sessionId).2
  rwa [(h sessionId).1, Nat.sub_self, List.drop_zero] at hx

/-- What a call does to the turns. -/
inductive Effect (db : Database) (call : Call) (t : Database) : Prop
  | silent (ha : ¬ call.Answered) (ht : t.turns = db.turns)
  | answered (ha : call.Answered) (hn : call.Next db.turns) (user assistant : ConversationTurn)
      (ht : t.turns = db.turns ++ [user, assistant]) (hu : user.role = .user)
      (hv : assistant.role = .assistant) (hid : user.id = call.draws.userTurnId)
      (hid' : assistant.id = call.draws.assistantTurnId)
      (hc : user.createdAt = call.draws.startedAt)
      (hc' : assistant.createdAt = call.draws.startedAt)
      (hs : assistant.sessionId = user.sessionId)

/-- A call that returns answers its message unless it ignores it. -/
theorem answered_of_ok {r : IngressResult × Database}
    (h : processIncomingMessage call.telegramId call.text call.evaluation call.draws settings db
      call.dialogue = .ok r) (hr : call.evaluation.decision.route ≠ .noop) : call.Answered := by
  unfold processIncomingMessage at h
  unfold Call.Answered
  cases hc : call.evaluation.decision.route <;> simp only [hc] at h hr ⊢
  case noop => exact absurd rfl hr
  case safety | clarification => simp
  case newDream | dialogueTurn =>
    cases hd : call.dialogue with
    | error => rw [hd] at h; cases h
    | ok turn => simp [Except.isOk, Except.toBool]

/-- A call that raises answers nothing. -/
theorem not_answered_of_error {message : String}
    (h : processIncomingMessage call.telegramId call.text call.evaluation call.draws settings db
      call.dialogue = .error message) : ¬ call.Answered := by
  unfold processIncomingMessage at h
  unfold Call.Answered
  cases hc : call.evaluation.decision.route <;> simp only [hc] at h ⊢
  case noop => simp
  case safety | clarification => cases h
  case newDream | dialogueTurn =>
    cases hd : call.dialogue with
    | error => simp [Except.isOk, Except.toBool]
    | ok turn => rw [hd] at h; cases h

theorem effect_of_step (h : step settings db call = some t) : Effect db call t := by
  simp only [step, Option.ite_none_right_eq_some] at h
  obtain ⟨hn, h⟩ := h
  split at h <;> cases h
  · next result hok =>
    cases (outcome_of_ok hok).1 with
    | noop hr _ _ ht => exact .silent (by simp [Call.Answered, hr]) ht
    | talk hr _ he =>
      obtain ⟨_, _, _, _, ht⟩ := he.turns
      exact .answered (answered_of_ok hok hr) hn _ _ ht rfl rfl rfl rfl rfl rfl rfl
    | dream hr he =>
      obtain ⟨_, _, _, _, ht⟩ := he.turns
      exact .answered (answered_of_ok hok (by simp [hr])) hn _ _ ht rfl rfl rfl rfl rfl rfl rfl
  · next message he => exact .silent (not_answered_of_error he) rfl

theorem wf_step (hw : Wf db) (he : Effect db call t) : Wf t := by
  cases he with
  | silent _ ht => exact ⟨ht ▸ hw.distinct, fun sessionId => ht ▸ hw.exchanges sessionId⟩
  | answered _ hn user assistant ht hu hv hid hid' hc hc' hs =>
    obtain ⟨hnew, hnew', hne, -⟩ := hn
    constructor
    · have hk := distinctKeys_append_singleton (r := user) hw.distinct (by rwa [key_turn, hid])
      have hk' := distinctKeys_append_singleton (r := assistant) hk (by
        rw [get_append, key_turn, hid', hnew', Option.none_or, get_eq_none]
        simpa [hid] using Ne.symm hne)
      rw [ht]
      simpa using hk'
    · intro sessionId
      rw [ht, sessionTurns_append]
      refine (hw.exchanges sessionId).append ?_
      by_cases h : user.sessionId = sessionId
      · simpa [sessionTurns, h, hs] using Exchanges.cons hu hv (hc'.trans hc.symm) .nil
      · simpa [sessionTurns, h, hs] using Exchanges.nil

/-- The step lemma: new turns are later than the old ones, and among each other they are
ordered by their identifiers. -/
theorem sorted_step (hs : Sorted db) (he : Effect db call t) :
    Sorted t ↔ UserFirst db call := by
  cases he with
  | silent ha ht =>
    refine iff_of_true (fun sessionId => ?_) fun h => absurd h ha
    rw [ht]
    exact hs sessionId
  | answered ha hn user assistant ht hu hv hid hid' hc hc' hsame =>
    obtain ⟨-, -, hne, hlater⟩ := hn
    have hnew : Later assistant user ↔ call.draws.userTurnId < call.draws.assistantTurnId := by
      simp [Later, hc, hc', hid, hid', lt_iff_le_and_ne, hne]
    have hcross : ∀ turn ∈ db.turns, Later user turn ∧ Later assistant turn := by
      intro turn hm
      have hlt := hlater turn hm
      exact ⟨.inl (hc ▸ hlt), .inl (hc' ▸ hlt)⟩
    have hpair : Sorted t ↔ Later assistant user := by
      constructor
      · intro h
        have hp := h user.sessionId
        rw [ht, sessionTurns_append, List.pairwise_append] at hp
        simpa [sessionTurns, hsame] using hp.2.1
      · intro h sessionId
        rw [ht, sessionTurns_append, List.pairwise_append]
        refine ⟨hs sessionId, ?_, ?_⟩
        · exact List.Pairwise.sublist List.filter_sublist (by simpa using h)
        · intro turn hm new hm'
          have hx := hcross turn (List.mem_of_mem_filter hm)
          rcases List.mem_pair.mp (List.mem_of_mem_filter hm') with rfl | rfl
          · exact hx.1
          · exact hx.2
    rw [hpair, hnew]
    exact ⟨fun h _ => h, fun h => h ha⟩

end Step

/-- In a run of messages every limit returns the last turns in the order in which they were
appended, exactly when the user turn of each answered message has the smaller identifier. -/
theorem inOrder_iff_userFirst (settings : Settings) {db : Database} (hk : DistinctKeys db.turns)
    (ho : InOrder db) (calls : List Call) :
    Always (step settings) InOrder db calls ↔ Guarded (step settings) UserFirst db calls := by
  have hw := wf_of_inOrder hk ho
  constructor
  · refine guarded_of_always (I := Wf) (fun _ _ _ h ht => wf_step h (effect_of_step ht)) ?_ hw
    intro s call t h hs ht hl
    have he := effect_of_step ht
    exact (sorted_step ((inOrder_iff_sorted h).mp hs) he).mp
      ((inOrder_iff_sorted (wf_step h he)).mp hl)
  · intro hg
    have hinv : Always (step settings) (fun db => Wf db ∧ Sorted db) db calls :=
      always_of_guarded (G := UserFirst) (fun _ _ _ h hok ht =>
        ⟨wf_step h.1 (effect_of_step ht), (sorted_step h.2 (effect_of_step ht)).mpr hok⟩)
        ⟨hw, (inOrder_iff_sorted hw).mp ho⟩ hg
    exact hinv.mono fun _ h => (inOrder_iff_sorted h.1).mpr h.2

/-! ### Examples -/

def settings : Settings := ⟨"mock", "mock-v1", 3⟩

def emptyDatabase : Database := ⟨[], [], [], [], [], [], [], [], []⟩

theorem inOrder_empty : InOrder emptyDatabase := by
  have hw : Wf emptyDatabase := ⟨distinctKeys_nil, fun _ => .nil⟩
  exact (inOrder_iff_sorted hw).mpr fun _ => List.Pairwise.nil

/-- A short message of user 3 at the time `n`, in session 1. -/
def clarified (n : ℕ) (userTurnId assistantTurnId : Uuid) : Call where
  telegramId := 3
  text := "вода"
  evaluation := ⟨⟨"вода", 4, 1, .shortFragment, .new, false, false⟩,
    ⟨.clarification, .none, "short_fragment_without_context"⟩⟩
  draws := ⟨1, 2, n, n, userTurnId, assistantTurnId, n, n, n, n, n, n, n⟩
  dialogue := .error ""

theorem inOrder_serial :
    Always (step settings) InOrder emptyDatabase [clarified 1 10 11, clarified 2 12 13] :=
  (inOrder_iff_userFirst settings distinctKeys_nil inOrder_empty _).mpr (by decide)

/-- The last turn that is read is the one of the user. -/
theorem run_swapped : (run (step settings) emptyDatabase [clarified 1 11 10]).map (fun db =>
    ((listRecentTurns db.turns 1 1).map ConversationTurn.role,
      (sessionTurns db.turns 1).map ConversationTurn.role)) =
    some ([.user], [.user, .assistant]) := by
  decide

theorem answer_comes_first : ¬ ∀ (settings : Settings) (db : Database), DistinctKeys db.turns →
    InOrder db → ∀ calls, Always (step settings) InOrder db calls := by
  intro h
  obtain ⟨db, hdb, hl⟩ := Option.map_eq_some_iff.mp run_swapped
  obtain ⟨hrecent, hall⟩ := Prod.mk.inj hl
  have ho := ((h settings emptyDatabase distinctKeys_nil inOrder_empty _).of_run hdb 1).1 1
  have hlen : (sessionTurns db.turns 1).length = 2 := by
    rw [← List.length_map ConversationTurn.role, hall]
    rfl
  rw [ho, List.map_drop, hall, hlen] at hrecent
  exact absurd hrecent (by decide)

end Conversation

end LiberNovus.Session

import LiberNovus.Dialogue.LetterCase
import LiberNovus.Dialogue.Prompt
import LiberNovus.Foundation.Ordering
import LiberNovus.Session.Ingress

/-! The history in the prompt of a dialogue turn. The ingress appends the message of the user,
and then `generate_dialogue_turn` reads the last ten turns of the session.

Proved: the prompts that reach the provider are built with that history; and in every run of
messages the history of each message is of earlier turns alone exactly when ten turns of its
session, which are in the table already, come after it in time. -/

namespace LiberNovus.Session

open Rows Runs LiberNovus.Runtime Dialogue Conversation

/-! ### Messages -/

/-- The companion that writes its prompts with `build_dialogue_prompt`. -/
def Companion.prompting [CaseTable] (companion : Companion) (assets : DialogueAssets)
    (profile : UserProfile) (currentTime : Time) : Companion := { companion with
  buildDialoguePrompt := fun userMessage sessionContext recentDialogue lastUserMessageAt =>
    .ok (Dialogue.buildDialoguePrompt assets profile currentTime userMessage sessionContext
      recentDialogue lastUserMessageAt) }

/-- A message of a user, and what its call draws from outside; `currentTime` is the reading of
the clock in `generate_dialogue_turn`. -/
structure Message where
  telegramId : ℤ
  text : String
  profile : UserProfile
  draws : Draws
  currentTime : Time
  companion : Companion
  refused : Option String

namespace Message

section Calls

variable [CharTable] [CaseTable] (settings : Settings) (assets : DialogueAssets)
  (message : Message) (db : Database)

def route : PolicyRoute :=
  (evaluate db.sessions message.telegramId message.text).decision.route

/-- The message goes to the companion. -/
def Companioned : Prop := message.route db ∈ [PolicyRoute.newDream, .dialogueTurn]

/-- The call of `process_incoming_message`. -/
def handled : Handled :=
  handleMessage (message.companion.prompting assets message.profile message.currentTime) settings
    message.telegramId message.text message.draws message.refused db

/-- The session of the message, and the tables that `generate_dialogue_turn` reads. -/
def taken : DreamSession × Database :=
  let (session, _, tables) := takeIn message.telegramId message.text
    (evaluate db.sessions message.telegramId message.text) message.draws settings db
  (session, tables)

/-- The turns from which `_format_recent_dialogue` writes `recent_dialogue`. -/
def history : List ConversationTurn :=
  listRecentTurns (message.taken settings db).2.turns (message.taken settings db).1.id 10

/-- The tables after the message; the identifier of its turn is new. -/
def step (db : Database) (message : Message) : Option Database :=
  if get db.turns message.draws.userTurnId = none then
    some (message.handled settings assets db).tables
  else none

/-- The prompts carry the history, and the history is of turns that were there before; that of
a first message is empty, and its prompts say so. -/
structure Unheard : Prop where
  prompts : ∀ prompt ∈ (message.handled settings assets db).prompts,
    ∃ sessionContext lastUserMessageAt, prompt = buildDialoguePrompt assets message.profile
      message.currentTime message.text sessionContext
      (formatRecentDialogue (message.history settings db)) lastUserMessageAt
  earlier : message.history settings db ⊆ db.turns
  first : sessionTurns db.turns (message.taken settings db).1.id = [] →
    message.history settings db = [] ∧
      ∀ prompt ∈ (message.handled settings assets db).prompts,
        firstMessagePlaceholder.toList <:+: prompt.toList

/-- Ten turns of the session are later than the one that the message is about to get. -/
def Overtaken : Prop :=
  10 ≤ (sessionTurns db.turns (message.taken settings db).1.id).countP fun turn =>
    message.draws.startedAt < turn.createdAt ∨
      message.draws.startedAt = turn.createdAt ∧ message.draws.userTurnId ≤ turn.id

instance : Decidable (message.Overtaken settings db) := inferInstanceAs (Decidable (_ ≤ _))

end Calls

/-! ### The tables that are read -/

section Reads

variable [CharTable] [CaseTable] {settings : Settings} {assets : DialogueAssets}
  {message : Message} {db : Database}

/-- What is read ends with the turn of the message. -/
theorem turns_taken (settings : Settings) (message : Message) (db : Database) :
    ∃ own : ConversationTurn,
      (message.taken settings db).2.turns = db.turns ++ [own] ∧
        own.sessionId = (message.taken settings db).1.id ∧
        own.id = message.draws.userTurnId ∧ own.createdAt = message.draws.startedAt := by
  unfold taken takeIn
  by_cases hr : (evaluate db.sessions message.telegramId message.text).decision.route = .newDream
  · simp only [hr, if_true]
    exact ⟨_, rfl, rfl, rfl, rfl⟩
  · simp only [hr, if_false]
    exact ⟨_, rfl, rfl, rfl, rfl⟩

/-- What the companion asks the provider is written with the history. -/
theorem prompts_handled (settings : Settings) (assets : DialogueAssets) (message : Message)
    (db : Database) {prompt : String} (h : prompt ∈ (message.handled settings assets db).prompts) :
    ∃ sessionContext lastUserMessageAt, prompt = buildDialoguePrompt assets message.profile
      message.currentTime message.text sessionContext
      (formatRecentDialogue (message.history settings db)) lastUserMessageAt := by
  have hreceived : prompt ∈ (receive (message.companion.prompting assets message.profile
      message.currentTime) settings message.telegramId message.text message.draws db).2 := by
    unfold handled handleMessage at h
    dsimp only at h
    split at h <;> exact h
  unfold receive at hreceived
  dsimp only at hreceived
  split at hreceived
  iterate 3 cases hreceived
  all_goals
    simp only [Companion.generateDialogueTurn, Companion.prompting] at hreceived
    split at hreceived
    · cases hreceived
    · cases hreceived
    · next hprompt _ =>
      cases hprompt
      exact ⟨_, _, List.eq_of_mem_replicate hreceived⟩

/-- The step lemma: the history leaves the turn of the message out exactly when it has been
overtaken by as many turns as are read. -/
theorem history_subset_iff (hnew : get db.turns message.draws.userTurnId = none) :
    message.history settings db ⊆ db.turns ↔ message.Overtaken settings db := by
  obtain ⟨own, hturns, hsession, hid, hcreated⟩ := turns_taken settings message db
  have hsame : sessionTurns (db.turns ++ [own]) (message.taken settings db).1.id =
      sessionTurns db.turns (message.taken settings db).1.id ++ [own] := by
    rw [sessionTurns_append]
    simp [sessionTurns, hsession]
  have hfresh : ∀ turn ∈ db.turns, turn.id ≠ own.id := by
    intro turn hm he
    exact get_eq_none.mp hnew (List.mem_map.mpr ⟨turn, hm, he.trans hid⟩)
  have hout : own ∉ db.turns := fun hm => hfresh own hm rfl
  have hmem : own ∈ message.history settings db ↔ ¬ message.Overtaken settings db := by
    unfold history listRecentTurns Overtaken
    rw [List.mem_reverse, hturns, hsame, Ordering.mem_take_insertionSort, Nat.not_le]
    · simp only [Later, hid, hcreated]
    · exact fun hm => hout (List.mem_of_mem_filter hm)
    · intro turn hm
      have hne := hfresh turn (List.mem_of_mem_filter hm)
      unfold Later Time Uuid at *
      omega
  constructor
  · intro hsub
    by_contra hover
    exact hout (hsub (hmem.mpr hover))
  · intro hover turn hm
    have hread : turn ∈ db.turns ++ [own] := by
      have htake := List.mem_of_mem_take (List.mem_reverse.mp hm)
      exact hturns ▸ List.mem_of_mem_filter ((List.mem_insertionSort _).mp htake)
    rcases List.mem_append.mp hread with hbefore | hown
    · exact hbefore
    · rw [List.mem_singleton.mp hown] at hm
      exact absurd hover (hmem.mp hm)

/-- A message that comes after the turns of its session is part of its own history. -/
theorem not_overtaken_of_latest (h : ∀ turn ∈ db.turns, turn.createdAt < message.draws.startedAt) :
    ¬ message.Overtaken settings db := by
  unfold Overtaken
  rw [List.countP_eq_zero.mpr]
  · omega
  · intro turn hm
    have hlt := h turn (List.mem_of_mem_filter hm)
    unfold Time at *
    simp only [decide_eq_true_eq]
    omega

theorem unheard_iff (hnew : get db.turns message.draws.userTurnId = none) :
    message.Unheard settings assets db ↔ message.Overtaken settings db := by
  constructor
  · exact fun h => (history_subset_iff hnew).mp h.earlier
  · intro hover
    refine ⟨fun _ => prompts_handled settings assets message db, (history_subset_iff hnew).mpr hover,
      fun hempty => ?_⟩
    -- a session without turns has none that could overtake the message
    rw [Overtaken, hempty] at hover
    cases hover

/-- In every run of messages, what the companion gets to read of each is of earlier turns alone
exactly when ten turns of the session have overtaken the message. -/
theorem unheard_iff_overtaken (settings : Settings) (assets : DialogueAssets) (db : Database)
    (messages : List Message) :
    AlwaysStep (step settings assets)
        (fun db message _ => message.Companioned db → message.Unheard settings assets db)
        db messages ↔
      Guarded (step settings assets)
        (fun db message => message.Companioned db → message.Overtaken settings db) db messages := by
  refine alwaysStep_iff_guarded ?_
  intro db message after hstep
  refine imp_congr_right fun _ => unheard_iff ?_
  simp only [step, Option.ite_none_right_eq_some] at hstep
  exact hstep.1

end Reads

/-! ### Example -/

section Example

local instance wordChars : CharTable := ⟨Char.isAlphanum⟩

local instance letters : CaseTable := letterCase

/-- The first message of user 3 continues, and the provider is not set up. -/
def opening : Message where
  telegramId := 3
  text := "Продолжу про реку"
  profile := ⟨none, none⟩
  draws := ⟨1, 2, 5, 5, 10, 11, 5, 5, 5, 5, 5, 5, 5⟩
  currentTime := 5
  companion := ⟨3, .error "no provider", fun _ _ _ _ => .error "", .error, fun _ => .error ""⟩
  refused := none

theorem history_opening : opening.Companioned emptyDatabase ∧
    formatRecentDialogue (opening.history settings emptyDatabase) =
      "Пользователь: Продолжу про реку" := by
  unfold Companioned
  decide

/-- Ten turns that were written later hide the message from itself. -/
example : opening.Overtaken settings { emptyDatabase with
    sessions := [⟨1, 3, .active, 4, 4⟩]
    turns := (List.range 10).map fun n =>
      ⟨20 + n, 3, 1, none, .assistant, .dialogue, "telegram", "да", none, 6⟩ } := by
  decide

theorem own_history : ¬ ∀ (assets : DialogueAssets) (messages : List Message),
    AlwaysStep (step settings assets)
      (fun db message _ => message.Companioned db → message.Unheard settings assets db)
      emptyDatabase messages := by
  intro h
  have hfirst := (h ⟨"", ""⟩ [opening] _ rfl).1 history_opening.1
  have hnone := (hfirst.first rfl).1
  have htext := history_opening.2
  rw [hnone] at htext
  exact absurd htext (by decide)

end Example

end Message

end LiberNovus.Session

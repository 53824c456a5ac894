import LiberNovus.Database
import LiberNovus.Foundation.Owners
import LiberNovus.Session.Intake

/-! The journal of a user: the four queries of the journal service. They look for the
memories and the turns of a dream by the dream alone, and count the dreams of a session by
the session alone.

Proved: where a dream belongs to the owner of its session, and a turn, a memory and a summary
to the owner of what they are about, the journal of a user needs only the rows that bear
his number. -/

namespace LiberNovus.Journal

open Rows Owners Session Memory

/-! ### The service -/

structure JournalSessionListItem where
  id : Uuid
  status : SessionStatus
  createdAt : Time
  lastActivityAt : Time
  dreamCount : ℕ
  deriving DecidableEq, Repr

def listJournalSessions (db : Database) (userId : ℤ) : List JournalSessionListItem :=
  ((db.sessions.filter fun session => session.userId = userId).insertionSort
    DreamSession.Newer).map fun session =>
      { id := session.id
        status := session.status
        createdAt := session.createdAt
        lastActivityAt := session.lastActivityAt
        dreamCount := (db.dreams.filter fun dream => dream.sessionId = session.id).length }

/-- `ORDER BY created_at DESC, id DESC`. -/
def LaterDream (a b : Dream) : Prop :=
  b.createdAt < a.createdAt ∨ b.createdAt = a.createdAt ∧ b.id ≤ a.id

instance : DecidableRel LaterDream := fun _ _ => inferInstanceAs (Decidable (_ ∨ _))

structure JournalDreamListItem where
  id : ℕ
  sessionId : Uuid
  createdAt : Time
  excerpt : String
  hasMemory : Bool
  deriving DecidableEq, Repr

def listJournalDreams (db : Database) (userId : ℤ) : List JournalDreamListItem :=
  ((db.dreams.filter fun dream => dream.userId = userId).insertionSort LaterDream).map fun dream =>
    { id := dream.id
      sessionId := dream.sessionId
      createdAt := dream.createdAt
      excerpt := String.ofList (dream.text.toList.take 200)
      hasMemory := (db.memories.find? fun memory => memory.dreamId = dream.id).isSome }

/-- `ORDER BY created_at ASC`. -/
def EarlierTurn (a b : ConversationTurn) : Prop := a.createdAt ≤ b.createdAt

instance : DecidableRel EarlierTurn := fun _ _ => inferInstanceAs (Decidable (_ ≤ _))

/-- An entry of `dialogue_turns`. -/
structure DialogueTurnItem where
  role : TurnRole
  text : String
  turnType : TurnType
  createdAt : Time
  deriving DecidableEq, Repr

structure JournalDreamDetail where
  id : ℕ
  sessionId : Uuid
  text : String
  createdAt : Time
  memoryJson : Option StructuredDreamMemoryV1
  dialogueTurns : List DialogueTurnItem
  deriving DecidableEq, Repr

def getJournalDreamDetail (db : Database) (userId : ℤ) (dreamId : ℕ) : Option JournalDreamDetail :=
  match db.dreams.find? fun dream => dream.id = dreamId ∧ dream.userId = userId with
  | none => none
  | some dream => some
    { id := dream.id
      sessionId := dream.sessionId
      text := dream.text
      createdAt := dream.createdAt
      memoryJson := (db.memories.find? fun memory => memory.dreamId = dreamId).map
        DreamMemory.memoryJson
      dialogueTurns :=
        ((db.turns.filter fun turn => turn.dreamId = some dreamId).insertionSort EarlierTurn).map
          fun turn => ⟨turn.role, turn.text, turn.turnType, turn.createdAt⟩ }

structure JournalPatternSummary where
  recurringSymbols : List (String × ℕ)
  recurringWords : List (String × ℕ)
  deriving DecidableEq, Repr

def getJournalPatterns (db : Database) (userId : ℤ) : JournalPatternSummary :=
  let summaries := db.summaries.filter fun summary => summary.userId = userId
  let symbolCounts := counter (summaries.flatMap fun summary => summary.keySymbols)
  let wordCounts := counter (summaries.flatMap fun summary => summary.recurringWords)
  { recurringSymbols := (symbolCounts.insertionSort Ranks).take 20
    recurringWords := (wordCounts.insertionSort Ranks).take 20 }

/-! ### Owners -/

def sessionOwner (db : Database) (sessionId : Uuid) : Option ℤ :=
  (get db.sessions sessionId).map DreamSession.userId

def dreamOwner (db : Database) (dreamId : ℕ) : Option ℤ := (get db.dreams dreamId).map Dream.userId

/-- The owners agree, and the primary keys are distinct. -/
structure Owned (db : Database) : Prop where
  sessionKeys : DistinctKeys db.sessions
  dreamKeys : DistinctKeys db.dreams
  memoryKeys : (db.memories.map DreamMemory.id).Nodup
  dreams : ∀ dream ∈ db.dreams, sessionOwner db dream.sessionId = some dream.userId
  turns : ∀ turn ∈ db.turns, ∀ dreamId ∈ turn.dreamId, dreamOwner db dreamId = some turn.userId
  memories : ∀ memory ∈ db.memories, dreamOwner db memory.dreamId = some memory.userId
  summaries : ∀ summary ∈ db.summaries,
    sessionOwner db summary.sessionId = some summary.userId

/-- The tables of the journal, as far as they bear the number of a user. -/
def ownTables (db : Database) (userId : ℤ) : Database :=
  { Database.empty with
    sessions := ownRows DreamSession.userId userId db.sessions
    dreams := ownRows Dream.userId userId db.dreams
    turns := ownRows ConversationTurn.userId userId db.turns
    memories := ownRows DreamMemory.userId userId db.memories
    summaries := ownRows SessionSummary.userId userId db.summaries }

theorem owned_empty : Owned Database.empty :=
  ⟨distinctKeys_nil, distinctKeys_nil, List.nodup_nil, nofun, nofun, nofun, nofun⟩

section Reading

variable {db : Database} (h : Owned db) (userId : ℤ)
include h

theorem sessionOwner_of_mem {session : DreamSession} (hm : session ∈ db.sessions) :
    sessionOwner db session.id = some session.userId := by
  rw [sessionOwner, ← key_session, get_of_mem h.sessionKeys hm, Option.map_some]

theorem dreamOwner_of_mem {dream : Dream} (hm : dream ∈ db.dreams) :
    dreamOwner db dream.id = some dream.userId := by
  have hget : get db.dreams dream.id = some dream := get_of_mem h.dreamKeys hm
  rw [dreamOwner, hget, Option.map_some]

theorem listJournalSessions_ownTables :
    listJournalSessions (ownTables db userId) userId = listJournalSessions db userId := by
  have hsessions : (ownRows DreamSession.userId userId db.sessions).filter
      (fun session => session.userId = userId) =
        db.sessions.filter fun session => session.userId = userId :=
    filter_ownRows fun session _ hs => by simpa using hs
  unfold listJournalSessions ownTables
  dsimp only
  rw [hsessions]
  refine List.map_congr_left fun session hs => ?_
  have hm : session ∈ db.sessions ∧ session.userId = userId := by
    simpa using (List.perm_insertionSort _ _).subset hs
  have hdreams : (ownRows Dream.userId userId db.dreams).filter
      (fun dream => dream.sessionId = session.id) =
        db.dreams.filter fun dream => dream.sessionId = session.id := by
    refine filter_ownRows fun dream hd hsession => ?_
    have howner := h.dreams dream hd
    rw [of_decide_eq_true hsession, sessionOwner_of_mem h hm.1, hm.2] at howner
    exact (Option.some.inj howner).symm
  rw [hdreams]

theorem find?_memories_ownTables {dream : Dream} (hd : dream ∈ db.dreams)
    (hu : dream.userId = userId) :
    (ownRows DreamMemory.userId userId db.memories).find?
        (fun memory => memory.dreamId = dream.id) =
      db.memories.find? fun memory => memory.dreamId = dream.id := by
  refine find?_ownRows fun memory hm hdream => ?_
  have howner := h.memories memory hm
  rw [of_decide_eq_true hdream, dreamOwner_of_mem h hd, hu] at howner
  exact (Option.some.inj howner).symm

theorem listJournalDreams_ownTables :
    listJournalDreams (ownTables db userId) userId = listJournalDreams db userId := by
  have hdreams : (ownRows Dream.userId userId db.dreams).filter
      (fun dream => dream.userId = userId) =
        db.dreams.filter fun dream => dream.userId = userId :=
    filter_ownRows fun dream _ hd => by simpa using hd
  unfold listJournalDreams ownTables
  dsimp only
  rw [hdreams]
  refine List.map_congr_left fun dream hd => ?_
  have hm : dream ∈ db.dreams ∧ dream.userId = userId := by
    simpa using (List.perm_insertionSort _ _).subset hd
  rw [find?_memories_ownTables h userId hm.1 hm.2]

theorem getJournalDreamDetail_ownTables (dreamId : ℕ) :
    getJournalDreamDetail (ownTables db userId) userId dreamId =
      getJournalDreamDetail db userId dreamId := by
  have hfind : (ownRows Dream.userId userId db.dreams).find?
      (fun dream => dream.id = dreamId ∧ dream.userId = userId) =
        db.dreams.find? fun dream => dream.id = dreamId ∧ dream.userId = userId := by
    refine find?_ownRows fun dream _ hd => ?_
    exact (of_decide_eq_true hd).2
  unfold getJournalDreamDetail ownTables
  dsimp only
  rw [hfind]
  cases hd : db.dreams.find? fun dream => dream.id = dreamId ∧ dream.userId = userId with
  | none => rfl
  | some dream =>
    have hm := List.mem_of_find?_eq_some hd
    have hdream := List.find?_some hd
    simp only [decide_eq_true_eq] at hdream
    obtain ⟨rfl, hu⟩ := hdream
    have hturns : (ownRows ConversationTurn.userId userId db.turns).filter
        (fun turn => turn.dreamId = some dream.id) =
          db.turns.filter fun turn => turn.dreamId = some dream.id := by
      refine filter_ownRows fun turn ht hdream => ?_
      have howner := h.turns turn ht dream.id (of_decide_eq_true hdream)
      rw [dreamOwner_of_mem h hm, hu] at howner
      exact (Option.some.inj howner).symm
    dsimp only
    rw [hturns, find?_memories_ownTables h userId hm hu]

omit h in
variable (db) in
theorem getJournalPatterns_ownTables :
    getJournalPatterns (ownTables db userId) userId = getJournalPatterns db userId := by
  have hsummaries : (ownRows SessionSummary.userId userId db.summaries).filter
      (fun summary => summary.userId = userId) =
        db.summaries.filter fun summary => summary.userId = userId :=
    filter_ownRows fun summary _ hs => by simpa using hs
  unfold getJournalPatterns ownTables
  dsimp only
  rw [hsummaries]

/-- The dream of another user has no detail. -/
theorem getJournalDreamDetail_none {dream : Dream} (hm : dream ∈ db.dreams)
    (hne : dream.userId ≠ userId) : getJournalDreamDetail db userId dream.id = none := by
  have hfind : (db.dreams.find? fun other => other.id = dream.id ∧ other.userId = userId) = none := by
    rw [List.find?_eq_none]
    rintro other ho hother
    obtain ⟨hid, hu⟩ := of_decide_eq_true hother
    obtain rfl : other = dream := List.inj_on_of_nodup_map h.dreamKeys ho hm hid
    exact hne hu
  rw [getJournalDreamDetail, hfind]

end Reading

/-! ### The whole journal -/

/-- The journals that the user gets from the two databases are the same. -/
structure SameJournal (userId : ℤ) (db after : Database) : Prop where
  sessions : listJournalSessions after userId = listJournalSessions db userId
  dreams : listJournalDreams after userId = listJournalDreams db userId
  detail : ∀ dreamId,
    getJournalDreamDetail after userId dreamId = getJournalDreamDetail db userId dreamId
  patterns : getJournalPatterns after userId = getJournalPatterns db userId

theorem sameJournal_of_ownTables {db after : Database} {userId : ℤ} (h : Owned db) (h' : Owned after)
    (he : ownTables after userId = ownTables db userId) : SameJournal userId db after where
  sessions := by
    rw [← listJournalSessions_ownTables h, ← listJournalSessions_ownTables h', he]
  dreams := by
    rw [← listJournalDreams_ownTables h, ← listJournalDreams_ownTables h', he]
  detail dreamId := by
    rw [← getJournalDreamDetail_ownTables h, ← getJournalDreamDetail_ownTables h', he]
  patterns := by
    rw [← getJournalPatterns_ownTables after, ← getJournalPatterns_ownTables db, he]

end LiberNovus.Journal

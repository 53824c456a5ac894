import LiberNovus.Foundation.Constraints
import LiberNovus.Integrity.Runs
import LiberNovus.Migrations.Backfill

/-! The migrations that give the dreams their sessions, one after another. Before them a dream has
a user and nothing else; a loop makes a session for each user who has dreams and puts all of them
into it, and the next two migrations make the columns required.

Proved: the migrations go through exactly when the ids that they draw are different, and the
backfill that follows the loop finds nothing to do. Each user with dreams is left with one session,
which is active, and from these tables the service keeps the foreign keys and the journals of
different users apart in every run. The way back gives the dreams as they were. -/

namespace LiberNovus.Migrations.Sessions

open Rows Runs Constraints Results Session Journal LiberNovus.Runtime
open Backfill (SessionRow DreamRow Tables)

/-! ### The tables -/

/-- A row of `dreams` at `a1b2c3d4e5f6`. -/
structure PlainRow where
  id : ℕ
  userId : ℤ
  text : String
  createdAt : Time
  deriving DecidableEq, Repr

instance : Keyed PlainRow ℕ := ⟨PlainRow.id⟩

/-- A row of `dream_sessions` at `e5f6a7b8c9d0`. -/
structure ActivityRow extends SessionRow where
  lastActivityAt : Option Time
  deriving DecidableEq, Repr

/-- The tables at `e5f6a7b8c9d0`. -/
structure Migrated where
  dreams : List DreamRow
  sessions : List ActivityRow
  deriving DecidableEq, Repr

/-- A dream with the new column. -/
def PlainRow.placed (dream : PlainRow) (sessionId : Option Uuid) : DreamRow :=
  ⟨dream.id, dream.userId, dream.text, dream.createdAt, sessionId⟩

/-- and without it. -/
def plain (dream : DreamRow) : PlainRow := ⟨dream.id, dream.userId, dream.text, dream.createdAt⟩

/-! ### The migrations -/

/-- `upgrade` of `b2c3d4e5f6a7`. -/
def addSessions (dreams : List PlainRow) : Tables := ⟨dreams.map fun dream => dream.placed none, []⟩

/-- `downgrade` of `b2c3d4e5f6a7`. -/
def dropSessions (t : Tables) : List PlainRow := t.dreams.map plain

section Fill

-- `uuid.uuid4()`, in the round of a user
variable (uuid4 : ℤ → Uuid) (now : Time)

def newSession (userId : ℤ) : SessionRow where
  id := uuid4 userId
  userId := userId
  status := "active"
  createdAt := now
  updatedAt := now

/-- A round of the loop: the `INSERT` and the `UPDATE`. -/
def fillUser (t : Tables) (userId : ℤ) : Except Violation Tables := do
  let sessions := t.sessions ++ [newSession uuid4 now userId]
  enforce (.unique "dream_sessions_pkey") (sessions.map SessionRow.id).Nodup
  let dreams := t.dreams.map fun dream =>
    if dream.userId = userId then { dream with sessionId := some (uuid4 userId) } else dream
  return ⟨dreams, sessions⟩

/-- `upgrade` of `c3d4e5f6a7b8`, on the users that its query gives. -/
def fill (t : Tables) : List ℤ → Except Violation Tables
  | [] => return t
  | userId :: userIds => do
    let t ← fillUser uuid4 now t userId
    fill t userIds

/-- `downgrade` of `c3d4e5f6a7b8`. -/
def clear (t : Tables) : Tables :=
  ⟨t.dreams.map fun dream => { dream with sessionId := none }, []⟩

/-- `upgrade` of `d4e5f6a7b8c9`; its `downgrade` changes no row. -/
def requireSession (md5 : String → Vector (Fin 16) 32) (t : Tables) : Except Violation Tables := do
  let t := Backfill.upgrade md5 t now
  enforce (.notNull "session_id") (∀ dream ∈ t.dreams, dream.sessionId ≠ none)
  return t

/-- `UPDATE dream_sessions SET last_activity_at = created_at …`, on one row. -/
def setActivity (session : ActivityRow) : ActivityRow :=
  if session.lastActivityAt = none then { session with lastActivityAt := some session.createdAt }
  else session

/-- `upgrade` of `e5f6a7b8c9d0`. -/
def addActivity (t : Tables) : Except Violation Migrated := do
  let sessions := t.sessions.map fun session => ({ session with lastActivityAt := none } : ActivityRow)
  let sessions := sessions.map setActivity
  enforce (.notNull "last_activity_at") (∀ session ∈ sessions, session.lastActivityAt ≠ none)
  return ⟨t.dreams, sessions⟩

/-- `downgrade` of `e5f6a7b8c9d0`. -/
def dropActivity (t : Migrated) : Tables := ⟨t.dreams, t.sessions.map ActivityRow.toSessionRow⟩

def upgrade (md5 : String → Vector (Fin 16) 32) (userIds : List ℤ) (dreams : List PlainRow) :
    Except Violation Migrated := do
  let t ← fill uuid4 now (addSessions dreams) userIds
  let t ← requireSession now md5 t
  addActivity t

def downgrade (t : Migrated) : List PlainRow := dropSessions (clear (dropActivity t))

/-- `SELECT DISTINCT user_id FROM dreams`, in any order. -/
structure Selects (userIds : List ℤ) (dreams : List PlainRow) : Prop where
  nodup : userIds.Nodup
  mem : ∀ userId, userId ∈ userIds ↔ userId ∈ dreams.map PlainRow.userId

/-! ### What the service reads -/

def sessionStatus : String → Option SessionStatus
  | "active" => some .active
  | "closed" => some .closed
  | _ => none

def ActivityRow.read (session : ActivityRow) : Option DreamSession := do
  let status ← sessionStatus session.status
  let lastActivityAt ← session.lastActivityAt
  some ⟨session.id, session.userId, status, session.createdAt, lastActivityAt⟩

def readDream (dream : DreamRow) : Option Dream := do
  let sessionId ← dream.sessionId
  some ⟨dream.id, dream.userId, dream.text, dream.createdAt, sessionId⟩

/-- The service reads every row, and finds the rows of the database. -/
structure Reads (t : Migrated) (db : Database) : Prop where
  sessions : t.sessions.map ActivityRow.read = db.sessions.map some
  dreams : t.dreams.map readDream = db.dreams.map some

/-- The tables of the later migrations are empty. -/
def Unused (db : Database) : Prop :=
  db = { Database.empty with sessions := db.sessions, dreams := db.dreams }

/-! ### The loop -/

/-- The tables when the loop has been through some of the users. -/
def filled (userIds : List ℤ) (dreams : List PlainRow) : Tables where
  dreams := dreams.map fun dream =>
    dream.placed (if dream.userId ∈ userIds then some (uuid4 dream.userId) else none)
  sessions := userIds.map (newSession uuid4 now)

variable {uuid4 now} {dreams : List PlainRow} {userIds done : List ℤ}

theorem ids_newSession (userIds : List ℤ) :
    (userIds.map (newSession uuid4 now)).map SessionRow.id = userIds.map uuid4 := by
  rw [List.map_map]
  rfl

theorem fillUser_eq_ok {userId : ℤ} {t : Tables} :
    fillUser uuid4 now (filled uuid4 now done dreams) userId = .ok t ↔
      ((done ++ [userId]).map uuid4).Nodup ∧ t = filled uuid4 now (done ++ [userId]) dreams := by
  have hsessions : (filled uuid4 now done dreams).sessions ++ [newSession uuid4 now userId] =
      (done ++ [userId]).map (newSession uuid4 now) := by
    rw [List.map_append]
    rfl
  have hdreams : (filled uuid4 now done dreams).dreams.map (fun dream =>
      if dream.userId = userId then { dream with sessionId := some (uuid4 userId) } else dream) =
        (filled uuid4 now (done ++ [userId]) dreams).dreams := by
    simp only [filled, List.map_map]
    refine List.map_congr_left fun dream _ => ?_
    by_cases hu : dream.userId = userId
    · simp [PlainRow.placed, hu]
    · simp [PlainRow.placed, hu]
  simp only [fillUser, hsessions, hdreams, enforce_bind_eq_ok, ids_newSession, pure, Except.pure,
    Except.ok.injEq]
  exact and_congr_right fun _ => eq_comm

/-- The loop goes through when all its ids are different. -/
theorem fill_eq_ok {t : Tables} (hdone : (done.map uuid4).Nodup) :
    fill uuid4 now (filled uuid4 now done dreams) userIds = .ok t ↔
      ((done ++ userIds).map uuid4).Nodup ∧ t = filled uuid4 now (done ++ userIds) dreams := by
  induction userIds generalizing done with
  | nil =>
    rw [List.append_nil]
    simp only [fill, pure, Except.pure, Except.ok.injEq, hdone, true_and]
    exact eq_comm
  | cons userId userIds ih =>
    have hassoc : done ++ userId :: userIds = done ++ [userId] ++ userIds := by simp
    rw [fill, bind_eq_ok, hassoc]
    constructor
    · rintro ⟨between, hbetween, ht⟩
      obtain ⟨hnodup, rfl⟩ := fillUser_eq_ok.mp hbetween
      exact (ih hnodup).mp ht
    · rintro ⟨hnodup, rfl⟩
      have hfirst : ((done ++ [userId]).map uuid4).Nodup := by
        rw [List.map_append] at hnodup
        exact hnodup.of_append_left
      exact ⟨_, fillUser_eq_ok.mpr ⟨hfirst, rfl⟩, (ih hfirst).mpr ⟨hnodup, rfl⟩⟩

end Fill

/-! ### The migrated tables -/

section Upgrade

variable (uuid4 : ℤ → Uuid) (now : Time)

def activeRow (userId : ℤ) : ActivityRow :=
  { newSession uuid4 now userId with lastActivityAt := some now }

/-- What the migrations make of the dreams. -/
def migrated (userIds : List ℤ) (dreams : List PlainRow) : Migrated where
  dreams := dreams.map fun dream => dream.placed (some (uuid4 dream.userId))
  sessions := userIds.map (activeRow uuid4 now)

variable {uuid4 now} {md5 : String → Vector (Fin 16) 32} {dreams : List PlainRow}
  {userIds : List ℤ}

/-- All users have been in the loop. -/
theorem dreams_filled (h : Selects userIds dreams) : (filled uuid4 now userIds dreams).dreams =
    dreams.map fun dream => dream.placed (some (uuid4 dream.userId)) := by
  refine List.map_congr_left fun dream hdream => ?_
  rw [if_pos ((h.mem dream.userId).mpr (List.mem_map_of_mem hdream))]

/-- The repair of the orphans has nothing to do. -/
theorem repair_filled (h : Selects userIds dreams) : Backfill.upgrade md5
    (filled uuid4 now userIds dreams) now = filled uuid4 now userIds dreams := by
  refine Backfill.upgrade_of_complete (fun dream hdream => ?_) now
  rw [dreams_filled h] at hdream
  obtain ⟨row, hrow, rfl⟩ := List.mem_map.mp hdream
  exact ⟨newSession uuid4 now row.userId,
    List.mem_map_of_mem ((h.mem row.userId).mpr (List.mem_map_of_mem hrow)), rfl⟩

theorem requireSession_eq_ok (h : Selects userIds dreams) {t : Tables} :
    requireSession now md5 (filled uuid4 now userIds dreams) = .ok t ↔
      t = filled uuid4 now userIds dreams := by
  have hall : ∀ dream ∈ (filled uuid4 now userIds dreams).dreams, dream.sessionId ≠ none := by
    rw [dreams_filled h]
    simp [PlainRow.placed]
  simp only [requireSession, repair_filled h, enforce_bind_eq_ok, pure, Except.pure,
    Except.ok.injEq]
  rw [and_iff_right hall]
  exact eq_comm

theorem addActivity_eq_ok (h : Selects userIds dreams) {after : Migrated} :
    addActivity (filled uuid4 now userIds dreams) = .ok after ↔
      after = migrated uuid4 now userIds dreams := by
  have hsessions : ((filled uuid4 now userIds dreams).sessions.map fun session =>
      ({ session with lastActivityAt := none } : ActivityRow)).map setActivity =
        userIds.map (activeRow uuid4 now) := by
    rw [filled, List.map_map, List.map_map]
    rfl
  simp only [addActivity, hsessions, enforce_bind_eq_ok, dreams_filled h, pure, Except.pure,
    Except.ok.injEq]
  rw [and_iff_right (by simp [activeRow])]
  exact eq_comm

theorem upgrade_eq_ok (h : Selects userIds dreams) {after : Migrated} :
    upgrade uuid4 now md5 userIds dreams = .ok after ↔
      (userIds.map uuid4).Nodup ∧ after = migrated uuid4 now userIds dreams := by
  have hstart : addSessions dreams = filled uuid4 now [] dreams := by
    simp [addSessions, filled]
  have hfill : ∀ t, fill uuid4 now (addSessions dreams) userIds = .ok t ↔
      (userIds.map uuid4).Nodup ∧ t = filled uuid4 now userIds dreams := by
    intro t
    rw [hstart]
    exact fill_eq_ok List.nodup_nil
  simp only [upgrade, bind_eq_ok, hfill]
  constructor
  · rintro ⟨_, ⟨hnodup, rfl⟩, _, hrequired, hafter⟩
    rw [(requireSession_eq_ok h).mp hrequired] at hafter
    exact ⟨hnodup, (addActivity_eq_ok h).mp hafter⟩
  · rintro ⟨hnodup, rfl⟩
    exact ⟨_, ⟨hnodup, rfl⟩, _, (requireSession_eq_ok h).mpr rfl, (addActivity_eq_ok h).mpr rfl⟩

/-- The way back, from any tables. -/
theorem downgrade_eq (t : Migrated) : downgrade t = t.dreams.map plain := by
  simp only [downgrade, dropSessions, clear, dropActivity, List.map_map]
  rfl

theorem downgrade_migrated : downgrade (migrated uuid4 now userIds dreams) = dreams := by
  rw [downgrade_eq, migrated, List.map_map]
  exact List.map_id _

end Upgrade

/-! ### The service on the migrated tables -/

section Service

variable {uuid4 : ℤ → Uuid} {now : Time} {dreams : List PlainRow} {userIds : List ℤ}
  {db : Database}

/-- The rows as the service reads them. -/
def readSession (uuid4 : ℤ → Uuid) (now : Time) (userId : ℤ) : DreamSession :=
  ⟨uuid4 userId, userId, .active, now, now⟩

def inSession (uuid4 : ℤ → Uuid) (dream : PlainRow) : Dream :=
  ⟨dream.id, dream.userId, dream.text, dream.createdAt, uuid4 dream.userId⟩

/-- A dream as it was written. -/
def written (dream : Dream) : PlainRow := ⟨dream.id, dream.userId, dream.text, dream.createdAt⟩

theorem reads_migrated : Reads (migrated uuid4 now userIds dreams) db ↔
    db.sessions = userIds.map (readSession uuid4 now) ∧ db.dreams = dreams.map (inSession uuid4) := by
  have hsessions : (migrated uuid4 now userIds dreams).sessions.map ActivityRow.read =
      (userIds.map (readSession uuid4 now)).map some := by
    rw [migrated, List.map_map, List.map_map]
    rfl
  have hdreams : (migrated uuid4 now userIds dreams).dreams.map readDream =
      (dreams.map (inSession uuid4)).map some := by
    rw [migrated, List.map_map, List.map_map]
    rfl
  have hinj (α : Type) : Function.Injective (List.map (some : α → Option α)) :=
    List.map_injective_iff.mpr (Option.some_injective α)
  constructor
  · intro h
    exact ⟨hinj _ (h.sessions.symm.trans hsessions), hinj _ (h.dreams.symm.trans hdreams)⟩
  · rintro ⟨hdb, hdb'⟩
    exact ⟨by rw [hsessions, hdb], by rw [hdreams, hdb']⟩

/-- Whatever has happened since, the way back gives the dreams as they were written. -/
theorem downgrade_reads {t : Migrated} (h : Reads t db) : downgrade t = db.dreams.map written := by
  have hread : ∀ (row : DreamRow) dream, readDream row = some dream → plain row = written dream := by
    intro row dream hrow
    obtain ⟨sessionId, -, hrow⟩ := Option.bind_eq_some_iff.mp hrow
    cases hrow
    rfl
  rw [downgrade_eq]
  have hdreams := h.dreams
  generalize t.dreams = rows at hdreams ⊢
  generalize db.dreams = dreams at hdreams ⊢
  induction rows generalizing dreams with
  | nil => cases dreams <;> first | rfl | cases hdreams
  | cons row rows ih =>
    cases dreams with
    | nil => cases hdreams
    | cons dream dreams =>
      rw [List.map_cons, List.map_cons, List.cons_eq_cons] at hdreams
      rw [List.map_cons, List.map_cons, hread _ _ hdreams.1, ih _ hdreams.2]

/-- The session that was made for a user is the one that is active. -/
theorem actives_migrated (h : userIds.Nodup)
    (hsessions : db.sessions = userIds.map (readSession uuid4 now)) (userId : ℤ) :
    actives db.sessions userId =
      if userId ∈ userIds then [readSession uuid4 now userId] else [] := by
  have hrows : actives db.sessions userId =
      (userIds.filter fun other => other = userId).map (readSession uuid4 now) := by
    rw [hsessions, actives, List.filter_map]
    congr 1
    refine List.filter_congr fun other _ => ?_
    rw [Function.comp_apply, decide_eq_decide]
    exact and_iff_left rfl
  rw [hrows]
  split
  · next hmem =>
    have hone : userIds.filter (fun other => other = userId) = [userId] :=
      Joins.filter_of_nodup (f := id) (by simpa using h) hmem
    rw [hone]
    rfl
  · next hmem =>
    have hnone : userIds.filter (fun other => other = userId) = [] :=
      List.filter_eq_nil_iff.mpr fun other hother he => hmem (of_decide_eq_true he ▸ hother)
    rw [hnone]
    rfl

/-- Every dream is in a session of its user. -/
theorem mem_sessions_migrated (h : Selects userIds dreams)
    (hsessions : db.sessions = userIds.map (readSession uuid4 now))
    (hdreams : db.dreams = dreams.map (inSession uuid4)) {dream : Dream} (hdream : dream ∈ db.dreams) :
    dream.sessionId = uuid4 dream.userId ∧ readSession uuid4 now dream.userId ∈ db.sessions := by
  rw [hdreams] at hdream
  obtain ⟨row, hrow, rfl⟩ := List.mem_map.mp hdream
  refine ⟨rfl, ?_⟩
  rw [hsessions]
  exact List.mem_map_of_mem ((h.mem row.userId).mpr (List.mem_map_of_mem hrow))

theorem integral_migrated (h : Selects userIds dreams) (hdb : Unused db)
    (hsessions : db.sessions = userIds.map (readSession uuid4 now))
    (hdreams : db.dreams = dreams.map (inSession uuid4)) : Integrity.schema.Integral db := by
  intro ref k hk
  cases ref with
  | dreamSession =>
    obtain ⟨dream, hdream, rfl⟩ := List.mem_map.mp hk
    obtain ⟨hsession, hmem⟩ := mem_sessions_migrated h hsessions hdreams hdream
    rw [hsession]
    exact List.mem_map_of_mem (f := DreamSession.id) hmem
  | _ =>
    rw [hdb] at hk
    exact absurd hk List.not_mem_nil

theorem owned_migrated (hkeys : DistinctKeys dreams) (h : Selects userIds dreams)
    (hids : (userIds.map uuid4).Nodup) (hdb : Unused db)
    (hsessions : db.sessions = userIds.map (readSession uuid4 now))
    (hdreams : db.dreams = dreams.map (inSession uuid4)) : Owned db := by
  have hsessionKeys : DistinctKeys db.sessions := by
    rw [hsessions, DistinctKeys, List.map_map]
    exact hids
  refine ⟨hsessionKeys, ?_, ?_, fun dream hdream => ?_, ?_, ?_, ?_⟩
  · rw [hdreams, DistinctKeys, List.map_map]
    exact hkeys
  · rw [hdb]
    exact List.nodup_nil
  · obtain ⟨hsession, hmem⟩ := mem_sessions_migrated h hsessions hdreams hdream
    have hget : get db.sessions (uuid4 dream.userId) = some (readSession uuid4 now dream.userId) :=
      get_of_mem hsessionKeys hmem
    rw [hsession, sessionOwner, hget]
    rfl
  all_goals
    rw [hdb]
    intro row hrow
    exact absurd hrow List.not_mem_nil

end Service

/-- The migrations go through exactly when their ids are different. The way back from them gives
the dreams as they were, and later too. The service finds all dreams of a user in his one session,
which is active, and keeps the foreign keys and the journals of different users apart. -/
theorem sessions_migrated [CharTable] (uuid4 : ℤ → Uuid) (now : Time)
    (md5 : String → Vector (Fin 16) 32) {dreams : List PlainRow} (hkeys : DistinctKeys dreams)
    {userIds : List ℤ} (h : Selects userIds dreams) :
    ((∃ after, upgrade uuid4 now md5 userIds dreams = .ok after) ↔ (userIds.map uuid4).Nodup) ∧
      ∀ after, upgrade uuid4 now md5 userIds dreams = .ok after →
        downgrade after = dreams ∧ (∃ db, Reads after db ∧ Unused db) ∧
        (∀ db, Reads after db → Unused db → db.dreams.map written = dreams ∧
          (∀ userId, actives db.sessions userId = if userId ∈ userIds then
            [⟨uuid4 userId, userId, .active, now, now⟩] else []) ∧
          (∀ dream ∈ db.dreams, dream.sessionId = uuid4 dream.userId) ∧
          ∀ settings, (∀ es, Always (Integrity.step settings) Integrity.schema.Integral db es) ∧
            ∀ es, Always (Journal.step settings) Hidden db es ∧
              AlwaysStep (Journal.step settings) Isolated db es) ∧
        ∀ later db, Reads later db → downgrade later = db.dreams.map written := by
  simp only [upgrade_eq_ok h]
  refine ⟨by simp, ?_⟩
  rintro after ⟨hids, rfl⟩
  refine ⟨downgrade_migrated, ?_, fun db hread hdb => ?_, fun _ _ => downgrade_reads⟩
  · exact ⟨{ Database.empty with
      sessions := userIds.map (readSession uuid4 now)
      dreams := dreams.map (inSession uuid4) }, reads_migrated.mpr ⟨rfl, rfl⟩, rfl⟩
  · obtain ⟨hsessions, hdreams⟩ := reads_migrated.mp hread
    have hintegral := integral_migrated h hdb hsessions hdreams
    have howned := owned_migrated hkeys h hids hdb hsessions hdreams
    refine ⟨?_, actives_migrated h.nodup hsessions,
      fun dream hdream => (mem_sessions_migrated h hsessions hdreams hdream).1, fun settings =>
        ⟨always_of_step (fun _ _ _ h ht => Integrity.integral_step h ht) hintegral, fun es => ?_⟩⟩
    · rw [hdreams, List.map_map]
      exact List.map_id _
    · have hall : Always (Journal.step settings) Owned db es :=
        always_of_step (fun _ _ _ h ht => (isolated_step h ht).1) howned es
      refine ⟨hall.mono fun _ h _ hd userId hne => getJournalDreamDetail_none h userId hd hne, ?_⟩
      exact alwaysStep_of_step (Q := Isolated) (fun _ _ _ h ht => isolated_step h ht) howned es

/-! ### Example -/

section Example

local instance table : CharTable := ⟨Char.isAlphanum⟩

def journal : List PlainRow := [⟨1, 7, "a house", 10⟩, ⟨2, 9, "the sea", 20⟩, ⟨3, 7, "a tower", 30⟩]

theorem distinctKeys_journal : DistinctKeys journal := (by decide : ([1, 2, 3] : List ℕ).Nodup)

theorem selects_journal : Selects [9, 7] journal where
  nodup := by decide
  mem userId := by simp [journal]; tauto

theorem sessions_migrated_journal :
    (∃ after, upgrade (fun userId => userId.toNat + 20) 40 (fun _ => Vector.replicate 32 0) [9, 7]
        journal = .ok after) ∧
      downgrade (migrated (fun userId => userId.toNat + 20) 40 [9, 7] journal) = journal := by
  have h := sessions_migrated (fun userId => userId.toNat + 20) 40 (fun _ => Vector.replicate 32 0)
    distinctKeys_journal selects_journal
  exact ⟨h.1.mpr (by decide), (h.2 _ ((upgrade_eq_ok selects_journal).mpr ⟨by decide, rfl⟩)).1⟩

end Example

end LiberNovus.Migrations.Sessions

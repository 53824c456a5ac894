import Mathlib.Data.Nat.Digits.Defs
import LiberNovus.Foundation.Joins
import LiberNovus.Foundation.Rows
import LiberNovus.Runtime.Job

/-! The migration that gives every dream a session. One statement creates the sessions that are
missing, under an id made of the user's number, and the next computes the session of every user
with an orphan again and writes it into his orphans.

Proved: behind it every dream names a session. The orphans of a user have got one session, and
it is the user's own; what was there before is unchanged, and to run the migration again changes
nothing. -/

namespace LiberNovus.Migrations.Backfill

open Rows Joins

/-- A row of `dream_sessions` at this revision. -/
structure SessionRow where
  id : Uuid
  userId : ℤ
  status : String
  createdAt : Time
  updatedAt : Time
  deriving DecidableEq, Repr

/-- A row of `dreams` at this revision. -/
structure DreamRow where
  id : ℕ
  userId : ℤ
  text : String
  createdAt : Time
  sessionId : Option Uuid
  deriving DecidableEq, Repr

instance : Keyed SessionRow Uuid := ⟨SessionRow.id⟩

instance : Keyed DreamRow ℕ := ⟨DreamRow.id⟩

structure Tables where
  dreams : List DreamRow
  sessions : List SessionRow
  deriving DecidableEq, Repr

/-- The primary keys and the foreign key. -/
structure Valid (t : Tables) : Prop where
  distinctDreams : DistinctKeys t.dreams
  distinctSessions : DistinctKeys t.sessions
  foreign : ∀ dream ∈ t.dreams, ∀ sessionId, dream.sessionId = some sessionId →
    ∃ session ∈ t.sessions, session.id = sessionId

/-! ### The statements -/

section Upgrade

-- `md5` is given by its thirty-two digits.
variable (md5 : String → Vector (Fin 16) 32)

/-- `substr(md5('orphan:' || user_id::text), start, count)`. -/
def substr (userId : ℤ) (start count : ℕ) : List (Option (Fin 16)) :=
  (((md5 ("orphan:" ++ toString userId)).toList.drop (start - 1)).take count).map some

/-- The text of the id, with `none` for a hyphen. -/
def orphanText (userId : ℤ) : List (Option (Fin 16)) :=
  substr md5 userId 1 8 ++ [none] ++ substr md5 userId 9 4 ++ [none] ++ substr md5 userId 13 4 ++
    [none] ++ substr md5 userId 17 4 ++ [none] ++ substr md5 userId 21 12

/-- `::uuid`. -/
def uuid (text : List (Option (Fin 16))) : Uuid :=
  Nat.ofDigits 16 (text.reduceOption.reverse.map Fin.val)

def orphanId (userId : ℤ) : Uuid := uuid (orphanText md5 userId)

variable (t : Tables)

def orphanUsers : List ℤ :=
  ((t.dreams.filter fun dream => dream.sessionId = none).map DreamRow.userId).eraseDups

/-- `ORDER BY user_id, updated_at DESC`. -/
def ByUser (a b : SessionRow) : Prop :=
  a.userId < b.userId ∨ a.userId = b.userId ∧ b.updatedAt ≤ a.updatedAt

instance : DecidableRel ByUser := fun _ _ => inferInstanceAs (Decidable (_ ∨ _))

/-- `existing_active`: `DISTINCT ON (user_id)` keeps the first row of a user. -/
def existingActive : List SessionRow :=
  let rows := t.sessions.filter fun session =>
    session.status = "active" ∧ session.userId ∈ orphanUsers t
  (Ordering.grouped SessionRow.userId (rows.insertionSort ByUser)).filterMap fun group =>
    group.2.head?

def usersToCreate : List ℤ :=
  (leftJoin (fun userId active => active.userId = userId) (orphanUsers t) (existingActive t)).filterMap
    fun row => if row.2 = none then some row.1 else none

/-- The session that is created for a user. -/
def newSession (now : Time) (userId : ℤ) : SessionRow where
  id := orphanId md5 userId
  userId := userId
  status := "active"
  createdAt := now
  updatedAt := now

/-- `INSERT INTO dream_sessions … ON CONFLICT (id) DO NOTHING`. -/
def insertSessions (now : Time) : Tables :=
  { t with sessions := insertAllNew t.sessions ((usersToCreate t).map (newSession md5 now)) }

/-- `ORDER BY updated_at DESC`. -/
def Latest (a b : SessionRow) : Prop := b.updatedAt ≤ a.updatedAt

instance : DecidableRel Latest := fun _ _ => inferInstanceAs (Decidable (_ ≤ _))

/-- The active session of a user that was updated last. -/
def latestActive (userId : ℤ) : Option Uuid :=
  let rows := t.sessions.filter fun session => session.userId = userId ∧ session.status = "active"
  (rows.insertionSort Latest).head?.map SessionRow.id

def targetSessions : List (ℤ × Uuid) :=
  (orphanUsers t).map fun userId => (userId, (latestActive t userId).getD (orphanId md5 userId))

/-- `UPDATE dreams …`, on one row. -/
def repair (targets : List (ℤ × Uuid)) (dream : DreamRow) : DreamRow :=
  match targets.find? fun target => dream.userId = target.1 ∧ dream.sessionId = none with
  | some target => { dream with sessionId := some target.2 }
  | none => dream

def updateDreams : Tables := { t with dreams := t.dreams.map (repair (targetSessions md5 t)) }

/-- The data part of `upgrade`. -/
def upgrade (now : Time) : Tables :=
  if 0 < t.dreams.countP (fun dream => dream.sessionId = none) then
    updateDreams md5 (insertSessions md5 t now)
  else t

end Upgrade

variable {md5 : String → Vector (Fin 16) 32} {t : Tables} {userId : ℤ} {now : Time}

/-! ### The ids -/

/-- The text of the id has all digits, in their order. -/
theorem reduceOption_orphanText :
    (orphanText md5 userId).reduceOption = (md5 ("orphan:" ++ toString userId)).toList := by
  obtain ⟨l, hl⟩ : ∃ l, l = (md5 ("orphan:" ++ toString userId)).toList := ⟨_, rfl⟩
  have hlen : l.length = 32 := by rw [hl, Vector.length_toList]
  have hsome (l : List (Fin 16)) : (l.map some).reduceOption = l := by
    induction l with
    | nil => exact List.reduceOption_nil
    | cons digit l ih => rw [List.map_cons, List.reduceOption_cons_of_some, ih]
  simp only [orphanText, substr, ← hl, List.reduceOption_append, List.reduceOption_cons_of_none,
    List.reduceOption_nil, List.append_nil, hsome, Nat.sub_self, List.drop_zero, Nat.reduceSub]
  have hlast : (l.drop 20).take 12 = l.drop 20 := List.take_of_length_le (by simp [hlen])
  have hdrop (i : ℕ) : (l.drop i).take 4 ++ l.drop (i + 4) = l.drop i := by
    rw [← List.drop_drop, List.take_append_drop]
  rw [hlast, List.append_assoc, hdrop 16, List.append_assoc, hdrop 12, List.append_assoc, hdrop 8,
    List.take_append_drop]

/-- Users with one id have one `md5`. -/
theorem md5_of_orphanId {userId userId' : ℤ} (h : orphanId md5 userId = orphanId md5 userId') :
    md5 ("orphan:" ++ toString userId) = md5 ("orphan:" ++ toString userId') := by
  simp only [orphanId, uuid, reduceOption_orphanText] at h
  have hlt (v : Vector (Fin 16) 32) : ∀ d ∈ v.toList.reverse.map Fin.val, d < 16 := by
    simp only [List.mem_map]
    rintro _ ⟨d, -, rfl⟩
    exact d.isLt
  have hdigits := Nat.ofDigits_inj_of_len_eq (by decide) (by simp) (hlt _) (hlt _) h
  have hlist := List.map_injective_iff.mpr Fin.val_injective hdigits
  exact Vector.toList_inj.mp (List.reverse_injective hlist)

/-! ### The users -/

/-- The user has a dream without a session. -/
def Orphaned (t : Tables) (userId : ℤ) : Prop :=
  ∃ dream ∈ t.dreams, dream.sessionId = none ∧ dream.userId = userId

/-- The active sessions of a user. -/
def actives (t : Tables) (userId : ℤ) : List SessionRow :=
  t.sessions.filter fun session => session.userId = userId ∧ session.status = "active"

theorem mem_actives {session : SessionRow} :
    session ∈ actives t userId ↔
      session ∈ t.sessions ∧ session.userId = userId ∧ session.status = "active" := by
  simp [actives]

theorem mem_orphanUsers : userId ∈ orphanUsers t ↔ Orphaned t userId := by
  simp [orphanUsers, Orphaned, and_assoc]

theorem exists_existingActive :
    (∃ active ∈ existingActive t, active.userId = userId) ↔
      Orphaned t userId ∧ ∃ session, session ∈ actives t userId := by
  have hrow : (∃ session ∈ t.sessions.filter (fun session =>
      session.status = "active" ∧ session.userId ∈ orphanUsers t), session.userId = userId) ↔
        Orphaned t userId ∧ ∃ session, session ∈ actives t userId := by
    simp only [List.mem_filter, decide_eq_true_eq, mem_actives, ← mem_orphanUsers]
    constructor
    · rintro ⟨session, ⟨hs, hactive, horphan⟩, rfl⟩
      exact ⟨horphan, session, hs, rfl, hactive⟩
    · rintro ⟨horphan, session, hs, rfl, hactive⟩
      exact ⟨session, ⟨hs, hactive, horphan⟩, rfl⟩
  rw [← hrow]
  simp only [existingActive, List.mem_filterMap, Prod.exists, Ordering.mem_grouped]
  constructor
  · rintro ⟨active, ⟨k, rows, ⟨rfl, -⟩, hhead⟩, rfl⟩
    have hm := (List.mem_filter.mp (List.mem_of_mem_head? hhead)).1
    exact ⟨active, (List.mem_insertionSort ByUser).mp hm, rfl⟩
  · rintro ⟨session, hs, rfl⟩
    have hs' := (List.mem_insertionSort ByUser).mpr hs
    obtain ⟨active, hactive⟩ : ∃ active, active ∈ ((t.sessions.filter fun session =>
        session.status = "active" ∧ session.userId ∈ orphanUsers t).insertionSort ByUser |>.filter
          fun x => x.userId = session.userId).head? :=
      Option.isSome_iff_exists.mp
        (List.isSome_head?.mpr (List.ne_nil_of_mem (List.mem_filter.mpr ⟨hs', by simp⟩)))
    have hid := (List.mem_filter.mp (List.mem_of_mem_head? hactive)).2
    exact ⟨active, ⟨session.userId, _, ⟨rfl, session, hs', rfl⟩, hactive⟩, of_decide_eq_true hid⟩

theorem mem_usersToCreate :
    userId ∈ usersToCreate t ↔ Orphaned t userId ∧ actives t userId = [] := by
  simp only [usersToCreate, List.mem_filterMap, Option.ite_none_right_eq_some, Option.some.injEq]
  constructor
  · rintro ⟨⟨userId, active⟩, hrow, rfl, rfl⟩
    obtain ⟨horphan, hnone⟩ := mem_leftJoin.mp hrow
    rw [mem_orphanUsers] at horphan
    refine ⟨horphan, List.eq_nil_iff_forall_not_mem.mpr fun session hs => ?_⟩
    obtain ⟨active, hactive, hid⟩ := exists_existingActive.mpr ⟨horphan, session, hs⟩
    exact none_mem_partners.mp hnone active hactive hid
  · rintro ⟨horphan, hnil⟩
    refine ⟨(userId, none), mem_leftJoin.mpr ⟨mem_orphanUsers.mpr horphan, ?_⟩, rfl, rfl⟩
    refine none_mem_partners.mpr fun active hactive hid => ?_
    obtain ⟨-, session, hs⟩ := exists_existingActive.mp ⟨active, hactive, hid⟩
    rw [hnil] at hs
    cases hs

/-! ### The sessions -/

/-- No two users with orphans have the same `md5`. -/
def CollisionFree (md5 : String → Vector (Fin 16) 32) (t : Tables) : Prop :=
  ∀ userId userId', Orphaned t userId → Orphaned t userId' →
    md5 ("orphan:" ++ toString userId) = md5 ("orphan:" ++ toString userId') → userId = userId'

/-- A session with the id made for a user is his own. -/
def OwnIds (md5 : String → Vector (Fin 16) 32) (t : Tables) : Prop :=
  ∀ userId, Orphaned t userId → ∀ session ∈ t.sessions, session.id = orphanId md5 userId →
    session.userId = userId

/-- The sessions that the first statement adds. -/
structure Created (t : Tables) (created : List SessionRow) : Prop where
  nodup : (created.map SessionRow.userId).Nodup
  missing : ∀ session ∈ created, session.status = "active" ∧ Orphaned t session.userId ∧
    actives t session.userId = []

theorem key_newSession : key (newSession md5 now userId) = orphanId md5 userId := by
  simp only [newSession, key]

theorem exists_created (ht : Valid t) (now : Time) :
    ∃ created, (insertSessions md5 t now).sessions = t.sessions ++ created ∧ Created t created ∧
      ∀ session ∈ created, session.id = orphanId md5 session.userId := by
  obtain ⟨created, hrows, hsub⟩ :=
    exists_insertAllNew t.sessions ((usersToCreate t).map (newSession md5 now))
  have hnew : ∀ session ∈ created, ∃ userId ∈ usersToCreate t,
      newSession md5 now userId = session := fun session hs => List.mem_map.mp (hsub.subset hs)
  have hid : ∀ session ∈ created, session.id = orphanId md5 session.userId := by
    intro session hs
    obtain ⟨userId, -, rfl⟩ := hnew session hs
    exact key_newSession
  refine ⟨created, hrows, ⟨?_, ?_⟩, hid⟩
  · have hkeys : DistinctKeys (t.sessions ++ created) :=
      hrows ▸ distinctKeys_insertAllNew ht.distinctSessions _
    have hids : (created.map SessionRow.id).Nodup := by
      rw [DistinctKeys, List.map_append] at hkeys
      exact hkeys.of_append_right
    -- the id of a new session is determined by its user
    rw [List.map_congr_left hid] at hids
    rw [← Function.comp_def, ← List.map_map] at hids
    exact hids.of_map _
  · intro session hs
    obtain ⟨userId, hu, rfl⟩ := hnew session hs
    exact ⟨rfl, mem_usersToCreate.mp hu⟩

/-- A user without an active session gets, or has already, the session with his id. -/
theorem exists_orphanId (ht : Valid t) (hmd5 : CollisionFree md5 t) (hown : OwnIds md5 t)
    (now : Time) (h : Orphaned t userId) (hnone : actives t userId = []) :
    ∃ session ∈ (insertSessions md5 t now).sessions,
      session.id = orphanId md5 userId ∧ session.userId = userId := by
  obtain ⟨created, hrows, hcreated, hids⟩ := @exists_created md5 t ht now
  have hnew : newSession md5 now userId ∈ (usersToCreate t).map (newSession md5 now) :=
    List.mem_map_of_mem (mem_usersToCreate.mpr ⟨h, hnone⟩)
  obtain ⟨session, hs, hkey⟩ : ∃ session ∈ (insertSessions md5 t now).sessions,
      key session = key (newSession md5 now userId) := exists_key_insertAllNew hnew
  have hid : session.id = orphanId md5 userId := hkey.trans key_newSession
  refine ⟨session, hs, hid, ?_⟩
  rw [hrows, List.mem_append] at hs
  rcases hs with hs | hs
  · exact hown userId h session hs hid
  · obtain ⟨-, horphan, -⟩ := hcreated.missing session hs
    exact hmd5 _ _ horphan h (md5_of_orphanId ((hids session hs).symm.trans hid))

/-! ### The dreams -/

/-- What the second statement computes for a user. -/
def target (md5 : String → Vector (Fin 16) 32) (t : Tables) (userId : ℤ) : Uuid :=
  (latestActive t userId).getD (orphanId md5 userId)

theorem latestActive_eq (userId : ℤ) :
    latestActive t userId = ((actives t userId).insertionSort Latest).head?.map SessionRow.id := rfl

/-- The target is a session of the user, and one he had before when that was active. -/
theorem exists_target (ht : Valid t) (hmd5 : CollisionFree md5 t) (hown : OwnIds md5 t) (now : Time)
    (h : Orphaned t userId) :
    ∃ session ∈ (insertSessions md5 t now).sessions,
      session.id = target md5 (insertSessions md5 t now) userId ∧ session.userId = userId ∧
        (actives t userId ≠ [] → session ∈ actives t userId) := by
  obtain ⟨created, hrows, hcreated, -⟩ := @exists_created md5 t ht now
  have hactives : actives t userId ≠ [] →
      actives (insertSessions md5 t now) userId = actives t userId := by
    intro hne
    have hothers : created.filter (fun session =>
        session.userId = userId ∧ session.status = "active") = [] := by
      refine List.filter_eq_nil_iff.mpr fun session hs hmine => ?_
      obtain ⟨-, -, hnone⟩ := hcreated.missing session hs
      exact hne ((of_decide_eq_true hmine).1 ▸ hnone)
    rw [actives, hrows, List.filter_append, hothers, List.append_nil, ← actives]
  rw [target, latestActive_eq]
  cases hhead : ((actives (insertSessions md5 t now) userId).insertionSort Latest).head? with
  | some session =>
    have hs := (List.mem_insertionSort Latest).mp (List.mem_of_mem_head? hhead)
    obtain ⟨hmem, huser, -⟩ := mem_actives.mp hs
    exact ⟨session, hmem, rfl, huser, fun hne => hactives hne ▸ hs⟩
  | none =>
    have hnone : actives (insertSessions md5 t now) userId = [] := by
      have := List.head?_eq_none_iff.mp hhead
      exact List.perm_nil.mp (this ▸ (List.perm_insertionSort Latest _).symm)
    have hbefore : actives t userId = [] := by
      by_contra hne
      exact hne (hactives hne ▸ hnone)
    obtain ⟨session, hs, hid, huser⟩ := exists_orphanId ht hmd5 hown now h hbefore
    rw [Option.map_none, Option.getD_none]
    exact ⟨session, hs, hid, huser, fun hne => absurd hbefore hne⟩

/-- A dream with the session that it has or is given. -/
def DreamRow.named (dream : DreamRow) (sessionId : Uuid) : DreamRow :=
  { dream with sessionId := some (dream.sessionId.getD sessionId) }

/-- The second statement reaches every orphan, and no other dream. -/
theorem repair_eq {dream : DreamRow} (hdream : dream ∈ t.dreams) :
    repair (targetSessions md5 t) dream = dream.named (target md5 t dream.userId) := by
  rw [repair]
  split
  · next x hfind =>
    obtain ⟨userId, -, rfl⟩ := List.mem_map.mp (List.mem_of_find?_eq_some hfind)
    have hx := List.find?_some hfind
    simp only [decide_eq_true_eq] at hx
    obtain ⟨rfl, hnone⟩ := hx
    rw [DreamRow.named, hnone, Option.getD_none]
    rfl
  · next hfind =>
    cases hid : dream.sessionId with
    | none =>
      have horphan : dream.userId ∈ orphanUsers t := mem_orphanUsers.mpr ⟨dream, hdream, hid, rfl⟩
      exact absurd (decide_eq_true ⟨rfl, hid⟩)
        (List.find?_eq_none.mp hfind _ (List.mem_map_of_mem horphan))
    | some sessionId => rw [DreamRow.named, hid, Option.getD_some, ← hid]

theorem updateDreams_dreams :
    (updateDreams md5 t).dreams = t.dreams.map fun dream => dream.named (target md5 t dream.userId) :=
  List.map_congr_left fun _ hdream => repair_eq hdream

/-! ### The migration -/

/-- What the migration has done: the dreams that had a session are unchanged, the orphans of a
user have one session between them, which is his own and was there before when he had an active
one, and no user has got more than one session. -/
structure Backfilled (before after : Tables) : Prop where
  valid : Valid after
  complete : ∀ dream ∈ after.dreams, ∃ session ∈ after.sessions, dream.sessionId = some session.id
  sessions : ∃ created, after.sessions = before.sessions ++ created ∧ Created before created
  dreams : ∃ target : ℤ → Uuid,
    after.dreams = before.dreams.map (fun dream => dream.named (target dream.userId)) ∧
    ∀ userId, Orphaned before userId → ∃ session ∈ after.sessions,
      session.id = target userId ∧ session.userId = userId ∧
        (actives before userId ≠ [] → session ∈ actives before userId)

/-- Without orphans there is nothing to do. -/
theorem backfilled_self (ht : Valid t) (h : ∀ dream ∈ t.dreams, dream.sessionId ≠ none) :
    Backfilled t t where
  valid := ht
  complete := by
    intro dream hdream
    obtain ⟨sessionId, hid⟩ := Option.ne_none_iff_exists'.mp (h dream hdream)
    obtain ⟨session, hs, rfl⟩ := ht.foreign dream hdream sessionId hid
    exact ⟨session, hs, hid⟩
  sessions := ⟨[], (List.append_nil _).symm, List.nodup_nil, nofun⟩
  dreams := by
    refine ⟨fun _ => 0, ?_, fun userId ⟨dream, hdream, hid, _⟩ => absurd hid (h dream hdream)⟩
    refine (List.map_id _).symm.trans (List.map_congr_left fun dream hdream => ?_)
    obtain ⟨sessionId, hid⟩ := Option.ne_none_iff_exists'.mp (h dream hdream)
    rw [DreamRow.named, hid, Option.getD_some, ← hid]
    rfl

theorem backfilled_update (ht : Valid t) (hmd5 : CollisionFree md5 t) (hown : OwnIds md5 t)
    (now : Time) : Backfilled t (updateDreams md5 (insertSessions md5 t now)) := by
  obtain ⟨created, hrows, hcreated, -⟩ := @exists_created md5 t ht now
  have hdreams : (updateDreams md5 (insertSessions md5 t now)).dreams = t.dreams.map fun dream =>
      dream.named (target md5 (insertSessions md5 t now) dream.userId) := updateDreams_dreams
  have htarget := fun userId => @exists_target md5 t userId ht hmd5 hown now
  have hcomplete : ∀ dream ∈ (updateDreams md5 (insertSessions md5 t now)).dreams,
      ∃ session ∈ (insertSessions md5 t now).sessions, dream.sessionId = some session.id := by
    rw [hdreams]
    intro _ hmem
    obtain ⟨dream, hdream, rfl⟩ := List.mem_map.mp hmem
    cases hid : dream.sessionId with
    | none =>
      obtain ⟨session, hs, htid, -⟩ := htarget dream.userId ⟨dream, hdream, hid, rfl⟩
      exact ⟨session, hs, by rw [DreamRow.named, hid, Option.getD_none, htid]⟩
    | some sessionId =>
      obtain ⟨session, hs, rfl⟩ := ht.foreign dream hdream sessionId hid
      exact ⟨session, hrows ▸ List.mem_append_left _ hs, by rw [DreamRow.named, hid, Option.getD_some]⟩
  refine ⟨⟨?_, ?_, ?_⟩, hcomplete, ⟨created, hrows, hcreated⟩, _, hdreams, htarget⟩
  · rw [hdreams, DistinctKeys, List.map_map]
    exact ht.distinctDreams
  · exact distinctKeys_insertAllNew ht.distinctSessions _
  · intro dream hdream sessionId hid
    obtain ⟨session, hs, hid'⟩ := hcomplete dream hdream
    exact ⟨session, hs, Option.some.inj (hid'.symm.trans hid)⟩

/-- A second run has nothing to do. -/
theorem upgrade_of_complete
    (h : ∀ dream ∈ t.dreams, ∃ session ∈ t.sessions, dream.sessionId = some session.id) (now : Time) :
    upgrade md5 t now = t := by
  have hcount : t.dreams.countP (fun dream => dream.sessionId = none) = 0 := by
    refine List.countP_eq_zero.mpr fun dream hdream hnone => ?_
    obtain ⟨session, -, hid⟩ := h dream hdream
    rw [of_decide_eq_true hnone] at hid
    cases hid
  rw [upgrade, hcount, if_neg (Nat.lt_irrefl 0)]

/-- The migration repairs every orphan, whatever the tables hold. -/
theorem upgrade_backfills (md5 : String → Vector (Fin 16) 32) (t : Tables) (now later : Time)
    (ht : Valid t) (hmd5 : CollisionFree md5 t) (hown : OwnIds md5 t) :
    Backfilled t (upgrade md5 t now) ∧
      upgrade md5 (upgrade md5 t now) later = upgrade md5 t now := by
  have hdone : Backfilled t (upgrade md5 t now) := by
    rw [upgrade]
    split
    · exact backfilled_update ht hmd5 hown now
    · next hcount =>
      refine backfilled_self ht fun dream hdream hid => hcount ?_
      exact List.countP_pos_iff.mpr ⟨dream, hdream, decide_eq_true hid⟩
  exact ⟨hdone, upgrade_of_complete hdone.complete later⟩

/-! ### A dream in a stranger's session -/

/-- The digits of `md5('orphan:1')`. -/
def digitsOfOne : Vector (Fin 16) 32 :=
  #v[1, 15, 9, 3, 0, 5, 11, 8, 9, 9, 5, 14, 5, 10, 5, 10, 2, 2, 0, 4, 10, 1, 5, 13, 8, 5, 8, 0, 6, 10,
    3, 15]

/-- The user has an orphan, and a dream in a session of another user. -/
def strangers : Tables where
  dreams := [⟨1, 1, "", 0, none⟩, ⟨2, 1, "", 0, some 7⟩]
  sessions := [⟨7, 2, "active", 0, 0⟩]

theorem valid_strangers : Valid strangers where
  distinctDreams := by simp [DistinctKeys, strangers, Keyed.key]
  distinctSessions := by simp [DistinctKeys, strangers, Keyed.key]
  foreign := by simp [strangers]

theorem orphaned_strangers {userId : ℤ} (h : Orphaned strangers userId) : userId = 1 := by
  obtain ⟨dream, hdream, hid, rfl⟩ := h
  simp only [strangers, List.mem_cons, List.not_mem_nil, or_false] at hdream
  rcases hdream with rfl | rfl
  · rfl
  · cases hid

theorem collisionFree_strangers : CollisionFree (fun _ => digitsOfOne) strangers :=
  fun _ _ h h' _ => (orphaned_strangers h).trans (orphaned_strangers h').symm

theorem ownIds_strangers : OwnIds (fun _ => digitsOfOne) strangers := by
  intro userId h session hs hid
  rw [orphaned_strangers h] at hid
  simp only [strangers, List.mem_singleton] at hs
  subst hs
  exact absurd hid (by decide)

theorem strangers_backfilled :
    Backfilled strangers (upgrade (fun _ => digitsOfOne) strangers 5) :=
  (upgrade_backfills _ strangers 5 6 valid_strangers collisionFree_strangers ownIds_strangers).1

/-- The dream stays in it. -/
theorem stays_with_stranger :
    Valid strangers ∧ CollisionFree (fun _ => digitsOfOne) strangers ∧
      OwnIds (fun _ => digitsOfOne) strangers ∧
      ∃ dream ∈ (upgrade (fun _ => digitsOfOne) strangers 5).dreams,
        ∀ session ∈ (upgrade (fun _ => digitsOfOne) strangers 5).sessions,
          dream.sessionId = some session.id → session.userId ≠ dream.userId := by
  refine ⟨valid_strangers, collisionFree_strangers, ownIds_strangers, ?_⟩
  decide

end LiberNovus.Migrations.Backfill

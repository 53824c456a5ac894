import LiberNovus.Analysis.ThreadHistory
import LiberNovus.Foundation.Constraints
import LiberNovus.Foundation.Joins

/-! The two migrations that give the analyses their threads. Before them a session has one
analysis at most; the first makes a thread for each of the sessions that have one, and the second
gives the threads the states and the activity times that they have now.

Proved: the migrations go through exactly when the ids that they draw are different, and leave
tables from which on every run of the service keeps the history of its threads. The way back
from them gives the tables as they were; later on it goes through as long as no session has been
analysed twice. -/

namespace LiberNovus.Migrations.Threads

open Rows Constraints Joins Results Analysis Session LiberNovus.Ordering

/-! ### The tables -/

/-- A row of `session_analyses` at `a7b8c9d0e1f2`. -/
structure AnalysisRow where
  id : Uuid
  sessionId : Uuid
  userId : ℤ
  provider : String
  model : String
  promptVersion : String
  analysisVersion : String
  analysisJson : String
  rawResponse : Option String
  createdAt : Time
  deriving DecidableEq, Repr

/-- and at `b8c9d0e1f2a3`. -/
structure ThreadedRow extends AnalysisRow where
  threadId : Option Uuid
  isLatest : Bool
  continuationIndex : ℕ
  deriving DecidableEq, Repr

/-- A row of `analysis_threads` at `b8c9d0e1f2a3`. -/
structure ThreadRow where
  id : Uuid
  sessionId : Uuid
  status : String
  createdAt : Time
  updatedAt : Time
  lastAnalysisId : Option Uuid
  deriving DecidableEq, Repr

/-- and at `c9d0e1f2a3b4`. -/
structure ActiveThreadRow extends ThreadRow where
  lastActivityAt : Option Time
  deriving DecidableEq, Repr

instance : Keyed AnalysisRow Uuid := ⟨AnalysisRow.id⟩

instance : Keyed ThreadRow Uuid := ⟨ThreadRow.id⟩

/-- The tables at `a7b8c9d0e1f2`; of the sessions the ids matter. -/
structure Tables where
  sessions : List Uuid
  analyses : List AnalysisRow
  deriving DecidableEq, Repr

/-- The tables behind the first migration. -/
structure Threaded where
  sessions : List Uuid
  threads : List ThreadRow
  analyses : List ThreadedRow
  deriving DecidableEq, Repr

/-- The tables behind both. -/
structure Migrated where
  sessions : List Uuid
  threads : List ActiveThreadRow
  analyses : List ThreadedRow
  deriving DecidableEq, Repr

/-- The constraints at `a7b8c9d0e1f2`. -/
structure Valid (t : Tables) : Prop where
  keys : DistinctKeys t.analyses
  oneAnalysis : (t.analyses.map AnalysisRow.sessionId).Nodup
  foreign : ∀ row ∈ t.analyses, row.sessionId ∈ t.sessions

/-! ### Threads and history -/

/-- `MIN`, for `before` a strict order, and `MAX`, for its converse. -/
def extreme {α : Type*} (before : α → α → Prop) [DecidableRel before] : List α → Option α
  | [] => none
  | a :: l =>
    match extreme before l with
    | some b => if before b a then some b else some a
    | none => some a

section History

-- `gen_random_uuid()`, in the row that is made for a session
variable (genRandomUuid : Uuid → Uuid)

/-- `INSERT INTO analysis_threads … GROUP BY sa.session_id`. -/
def insertThreads (analyses : List ThreadedRow) : List ThreadRow :=
  (grouped (fun row => row.sessionId) analyses).filterMap fun group => do
    let first ← extreme (fun a b : Time => a < b) (group.2.map fun row => row.createdAt)
    let last ← extreme (fun a b : Time => b < a) (group.2.map fun row => row.createdAt)
    some ⟨genRandomUuid group.1, group.1, "active", first, last, none⟩

/-- `ADD COLUMN`, three times. -/
def addColumns (row : AnalysisRow) : ThreadedRow :=
  { row with
    threadId := none
    isLatest := false
    continuationIndex := 0 }

/-- `UPDATE session_analyses … SET thread_id = at.id`, on one row. -/
def setThread (threads : List ThreadRow) (row : ThreadedRow) : ThreadedRow :=
  match threads.find? fun thread => thread.sessionId = row.sessionId with
  | some thread => { row with threadId := some thread.id }
  | none => row

/-- `ORDER BY session_id, created_at DESC, id DESC`. -/
def Recent (a b : ThreadedRow) : Prop :=
  a.sessionId < b.sessionId ∨ a.sessionId = b.sessionId ∧
    (b.createdAt < a.createdAt ∨ b.createdAt = a.createdAt ∧ b.id ≤ a.id)

instance : DecidableRel Recent := fun _ _ => inferInstanceAs (Decidable (_ ∨ _))

/-- `SELECT DISTINCT ON (session_id) id`. -/
def latestIds (analyses : List ThreadedRow) : List Uuid :=
  (grouped (fun row => row.sessionId) (analyses.insertionSort Recent)).filterMap fun group =>
    group.2.head?.map fun row => row.id

/-- `UPDATE session_analyses … SET is_latest = true`, on one row. -/
def setLatest (latest : List Uuid) (row : ThreadedRow) : ThreadedRow :=
  if row.id ∈ latest then { row with isLatest := true } else row

/-- The analysis that is joined with a thread: `sa.thread_id = at.id AND sa.is_latest = true`. -/
def latestOf (analyses : List ThreadedRow) (id : Uuid) : Option ThreadedRow :=
  analyses.find? fun row => row.threadId = some id ∧ row.isLatest = true

/-- `UPDATE analysis_threads … SET last_analysis_id = sa.id`, on one row. -/
def setLast (analyses : List ThreadedRow) (thread : ThreadRow) : ThreadRow :=
  match latestOf analyses thread.id with
  | some row => { thread with lastAnalysisId := some row.id }
  | none => thread

/-- `upgrade` of `b8c9d0e1f2a3`. -/
def upgradeHistory (t : Tables) : Except Violation Threaded := do
  let analyses := t.analyses.map addColumns
  let threads := insertThreads genRandomUuid analyses
  enforce (.unique "analysis_threads_pkey") (threads.map ThreadRow.id).Nodup
  enforce (.foreignKey "analysis_threads_session_id_fkey")
    (∀ thread ∈ threads, thread.sessionId ∈ t.sessions)
  let analyses := analyses.map (setThread threads)
  let analyses := analyses.map (setLatest (latestIds analyses))
  let threads := threads.map (setLast analyses)
  enforce (.notNull "thread_id") (∀ row ∈ analyses, row.threadId ≠ none)
  enforce (.foreignKey "fk_session_analyses_thread_id")
    (∀ row ∈ analyses, ∀ id ∈ row.threadId, id ∈ threads.map ThreadRow.id)
  enforce (.foreignKey "fk_analysis_threads_last_analysis")
    (∀ thread ∈ threads, ∀ id ∈ thread.lastAnalysisId, id ∈ analyses.map fun row => row.id)
  enforce (.unique "ix_session_analyses_one_latest_per_thread")
    ((analyses.filter fun row => row.isLatest = true).map ThreadedRow.threadId).Nodup
  return ⟨t.sessions, threads, analyses⟩

/-- `downgrade` of `b8c9d0e1f2a3`. -/
def downgradeHistory (t : Threaded) : Except Violation Tables := do
  let analyses := t.analyses.map ThreadedRow.toAnalysisRow
  enforce (.unique "session_analyses_session_id_key") (analyses.map AnalysisRow.sessionId).Nodup
  return ⟨t.sessions, analyses⟩

end History

/-! ### The second lifecycle -/

/-- `ADD COLUMN last_activity_at`. -/
def addActivity (thread : ThreadRow) : ActiveThreadRow := { thread with lastActivityAt := none }

/-- `COALESCE(sa.created_at, at.updated_at, at.created_at)`, whose first column is never null. -/
def activityOfLatest (analyses : List ThreadedRow) (thread : ActiveThreadRow) : ActiveThreadRow :=
  match latestOf analyses thread.id with
  | some row => { thread with lastActivityAt := some row.createdAt }
  | none => thread

/-- `COALESCE(updated_at, created_at)`, for a thread without an analysis. -/
def activityOfThread (thread : ActiveThreadRow) : ActiveThreadRow :=
  if thread.lastActivityAt = none then { thread with lastActivityAt := some thread.updatedAt }
  else thread

/-- `UPDATE analysis_threads SET status = … WHERE status = …`, on one row. -/
def restatus (before after : String) (thread : ThreadRow) : ThreadRow :=
  if thread.status = before then { thread with status := after } else thread

def ActiveThreadRow.restatus (before after : String) (thread : ActiveThreadRow) : ActiveThreadRow :=
  { thread with toThreadRow := Threads.restatus before after thread.toThreadRow }

/-- `upgrade` of `c9d0e1f2a3b4`. -/
def upgradeLifecycle (t : Threaded) : Except Violation Migrated := do
  let threads := t.threads.map addActivity
  let threads := threads.map (activityOfLatest t.analyses)
  let threads := threads.map activityOfThread
  let threads := threads.map (.restatus "superseded" "idle")
  let threads := threads.map (.restatus "completed" "closed")
  enforce (.unique "ix_analysis_threads_one_active_per_session")
    ((threads.filter fun thread => thread.status = "active").map fun thread => thread.sessionId).Nodup
  return ⟨t.sessions, threads, t.analyses⟩

/-- `downgrade` of `c9d0e1f2a3b4`. -/
def downgradeLifecycle (t : Migrated) : Threaded where
  sessions := t.sessions
  threads := ((t.threads.map ActiveThreadRow.toThreadRow).map (restatus "idle" "superseded")).map
    (restatus "closed" "completed")
  analyses := t.analyses

def upgrade (genRandomUuid : Uuid → Uuid) (t : Tables) : Except Violation Migrated :=
  upgradeHistory genRandomUuid t >>= upgradeLifecycle

def downgrade (t : Migrated) : Except Violation Tables := downgradeHistory (downgradeLifecycle t)

/-! ### What the service reads -/

def threadStatus : String → Option ThreadStatus
  | "active" => some .active
  | "idle" => some .idle
  | "closed" => some .closed
  | _ => none

def ActiveThreadRow.read (thread : ActiveThreadRow) : Option AnalysisThread := do
  let status ← threadStatus thread.status
  some ⟨thread.id, thread.sessionId, status, thread.createdAt, thread.lastActivityAt,
    thread.lastAnalysisId⟩

/-- No analysis has a job when `e1f2a3b4c5d6` adds the column. -/
def ThreadedRow.read (row : ThreadedRow) : Option SessionAnalysis := do
  let threadId ← row.threadId
  some ⟨row.id, row.sessionId, threadId, row.userId, row.provider, row.model, row.promptVersion,
    row.analysisVersion, row.analysisJson, row.rawResponse, row.isLatest, row.continuationIndex,
    none, row.createdAt⟩

/-- The service reads every row, and finds the rows of the database. -/
structure Reads (t : Migrated) (db : Database) : Prop where
  threads : t.threads.map ActiveThreadRow.read = db.threads.map some
  analyses : t.analyses.map ThreadedRow.read = db.analyses.map some

/-! ### One analysis in each session -/

/-- The thread that is made for an analysis. -/
def threadOf (genRandomUuid : Uuid → Uuid) (row : AnalysisRow) : ActiveThreadRow where
  id := genRandomUuid row.sessionId
  sessionId := row.sessionId
  status := "active"
  createdAt := row.createdAt
  updatedAt := row.createdAt
  lastAnalysisId := some row.id
  lastActivityAt := some row.createdAt

/-- and the analysis in it. -/
def inThread (genRandomUuid : Uuid → Uuid) (row : AnalysisRow) : ThreadedRow :=
  { row with
    threadId := some (genRandomUuid row.sessionId)
    isLatest := true
    continuationIndex := 0 }

/-- What the migrations make of the tables. -/
def migrated (genRandomUuid : Uuid → Uuid) (t : Tables) : Migrated where
  sessions := t.sessions
  threads := t.analyses.map (threadOf genRandomUuid)
  analyses := t.analyses.map (inThread genRandomUuid)

/-- The sessions that have been analysed draw different ids. -/
def DistinctDraws (genRandomUuid : Uuid → Uuid) (t : Tables) : Prop :=
  (t.analyses.map fun row => genRandomUuid row.sessionId).Nodup

section Upgrade

variable {genRandomUuid : Uuid → Uuid} {t : Tables}

/-- The threads before they know their analyses. -/
def newThread (genRandomUuid : Uuid → Uuid) (row : AnalysisRow) : ThreadRow :=
  { (threadOf genRandomUuid row).toThreadRow with lastAnalysisId := none }

theorem insertThreads_eq (ht : Valid t) : insertThreads genRandomUuid (t.analyses.map addColumns) =
    t.analyses.map (newThread genRandomUuid) := by
  have hone : ((t.analyses.map addColumns).map fun row => row.sessionId).Nodup := by
    rw [List.map_map]
    exact ht.oneAnalysis
  rw [insertThreads, grouped_of_nodup hone, List.map_map, List.filterMap_map]
  exact List.filterMap_eq_map (f := newThread genRandomUuid) ▸ rfl

theorem setThread_eq (ht : Valid t) {row : AnalysisRow} (hrow : row ∈ t.analyses) :
    setThread (t.analyses.map (newThread genRandomUuid)) (addColumns row) =
      { addColumns row with threadId := some (genRandomUuid row.sessionId) } := by
  have hfind : (t.analyses.map (newThread genRandomUuid)).find?
      (fun thread => thread.sessionId = (addColumns row).sessionId) =
        some (newThread genRandomUuid row) := by
    rw [List.find?_map]
    exact congrArg (Option.map _) (find?_of_nodup ht.oneAnalysis hrow)
  rw [setThread, hfind]
  rfl

/-- Without a second one every analysis is the latest of its session. -/
theorem mem_latestIds {analyses : List ThreadedRow}
    (hone : (analyses.map fun row => row.sessionId).Nodup) {row : ThreadedRow} (hrow : row ∈ analyses) :
    row.id ∈ latestIds analyses := by
  have hperm := List.perm_insertionSort Recent analyses
  have hsorted : ((analyses.insertionSort Recent).map fun row => row.sessionId).Nodup :=
    (hperm.map _).nodup_iff.mpr hone
  rw [latestIds, grouped_of_nodup hsorted, List.filterMap_map]
  exact List.mem_filterMap.mpr ⟨row, hperm.mem_iff.mpr hrow, rfl⟩

theorem analyses_eq (ht : Valid t) :
    let analyses := (t.analyses.map addColumns).map
      (setThread (t.analyses.map (newThread genRandomUuid)))
    analyses.map (setLatest (latestIds analyses)) = t.analyses.map (inThread genRandomUuid) := by
  have hset : (t.analyses.map addColumns).map (setThread (t.analyses.map (newThread genRandomUuid))) =
      t.analyses.map fun row =>
        { addColumns row with threadId := some (genRandomUuid row.sessionId) } := by
    rw [List.map_map]
    exact List.map_congr_left fun row hrow => setThread_eq ht hrow
  have hone : ((t.analyses.map fun row => ({ addColumns row with
      threadId := some (genRandomUuid row.sessionId) } : ThreadedRow)).map
        fun row => row.sessionId).Nodup := by
    rw [List.map_map]
    exact ht.oneAnalysis
  simp only [hset]
  rw [List.map_map]
  refine List.map_congr_left fun row hrow => ?_
  rw [Function.comp_apply, setLatest, if_pos (mem_latestIds hone (List.mem_map_of_mem hrow))]
  rfl

/-- The analysis that is found for a thread is the one of its session. -/
theorem latestOf_eq (hdraws : DistinctDraws genRandomUuid t) {row : AnalysisRow}
    (hrow : row ∈ t.analyses) :
    latestOf (t.analyses.map (inThread genRandomUuid)) (genRandomUuid row.sessionId) =
      some (inThread genRandomUuid row) := by
  have hfind : t.analyses.find? ((fun other : ThreadedRow =>
      other.threadId = some (genRandomUuid row.sessionId) ∧ other.isLatest = true) ∘
        inThread genRandomUuid) = some row := by
    rw [← find?_of_nodup hdraws hrow]
    congr 1
    funext other
    simp [inThread]
  rw [latestOf, List.find?_map, hfind, Option.map_some]

theorem setLast_eq (hdraws : DistinctDraws genRandomUuid t) :
    (t.analyses.map (newThread genRandomUuid)).map
        (setLast (t.analyses.map (inThread genRandomUuid))) =
      t.analyses.map fun row => (threadOf genRandomUuid row).toThreadRow := by
  rw [List.map_map]
  refine List.map_congr_left fun row hrow => ?_
  have hlatest : latestOf (t.analyses.map (inThread genRandomUuid)) (newThread genRandomUuid row).id =
      some (inThread genRandomUuid row) := latestOf_eq hdraws hrow
  rw [Function.comp_apply, setLast, hlatest]
  rfl

/-- The tables behind the first migration. -/
def threaded (genRandomUuid : Uuid → Uuid) (t : Tables) : Threaded where
  sessions := t.sessions
  threads := t.analyses.map fun row => (threadOf genRandomUuid row).toThreadRow
  analyses := t.analyses.map (inThread genRandomUuid)

theorem upgradeHistory_eq_ok (ht : Valid t) {after : Threaded} :
    upgradeHistory genRandomUuid t = .ok after ↔
      DistinctDraws genRandomUuid t ∧ after = threaded genRandomUuid t := by
  have hkeys : ((t.analyses.map (newThread genRandomUuid)).map ThreadRow.id).Nodup ↔
      DistinctDraws genRandomUuid t := by
    rw [List.map_map]
    rfl
  unfold upgradeHistory
  simp only [enforce_bind_eq_ok, insertThreads_eq ht, hkeys, analyses_eq ht, pure, Except.pure,
    Except.ok.injEq]
  constructor
  · rintro ⟨hdraws, -, -, -, -, -, rfl⟩
    rw [setLast_eq hdraws]
    exact ⟨hdraws, rfl⟩
  · rintro ⟨hdraws, rfl⟩
    rw [setLast_eq hdraws]
    refine ⟨hdraws, ?_, ?_, ?_, ?_, ?_, rfl⟩
    · simpa [newThread, threadOf] using ht.foreign
    · simp [inThread]
    · simp only [List.mem_map, List.map_map]
      rintro _ ⟨row, hrow, rfl⟩ id ⟨⟩
      exact ⟨row, hrow, rfl⟩
    · simp only [List.mem_map, List.map_map]
      rintro _ ⟨row, hrow, rfl⟩ id ⟨⟩
      exact ⟨row, hrow, rfl⟩
    · have hall : (t.analyses.map (inThread genRandomUuid)).filter (fun row => row.isLatest = true) =
          t.analyses.map (inThread genRandomUuid) :=
        List.filter_eq_self.mpr (by simp [inThread])
      have hthreads : (t.analyses.map (inThread genRandomUuid)).map ThreadedRow.threadId =
          (t.analyses.map fun row => genRandomUuid row.sessionId).map some := by
        rw [List.map_map, List.map_map]
        rfl
      rw [hall, hthreads]
      exact hdraws.map (Option.some_injective _)

theorem upgradeLifecycle_eq_ok (ht : Valid t) (hdraws : DistinctDraws genRandomUuid t)
    {after : Migrated} :
    upgradeLifecycle (threaded genRandomUuid t) = .ok after ↔ after = migrated genRandomUuid t := by
  have hthreads : (((((threaded genRandomUuid t).threads.map addActivity).map
      (activityOfLatest (threaded genRandomUuid t).analyses)).map activityOfThread).map
        (.restatus "superseded" "idle")).map (.restatus "completed" "closed") =
          t.analyses.map (threadOf genRandomUuid) := by
    simp only [threaded, List.map_map]
    refine List.map_congr_left fun row hrow => ?_
    have hlatest : latestOf (t.analyses.map (inThread genRandomUuid))
        (addActivity (threadOf genRandomUuid row).toThreadRow).id =
          some (inThread genRandomUuid row) := latestOf_eq hdraws hrow
    simp only [Function.comp_apply]
    rw [activityOfLatest, hlatest]
    rfl
  have hactive : (((t.analyses.map (threadOf genRandomUuid)).filter fun thread =>
      thread.status = "active").map fun thread => thread.sessionId).Nodup := by
    rw [List.filter_eq_self.mpr (by simp [threadOf]), List.map_map]
    exact ht.oneAnalysis
  unfold upgradeLifecycle
  simp only [hthreads, enforce_bind_eq_ok, pure, Except.pure, Except.ok.injEq, hactive, true_and]
  exact eq_comm

theorem upgrade_eq_ok (ht : Valid t) {after : Migrated} : upgrade genRandomUuid t = .ok after ↔
    DistinctDraws genRandomUuid t ∧ after = migrated genRandomUuid t := by
  rw [upgrade, bind_eq_ok]
  constructor
  · rintro ⟨between, hbetween, hafter⟩
    obtain ⟨hdraws, rfl⟩ := (upgradeHistory_eq_ok ht).mp hbetween
    exact ⟨hdraws, (upgradeLifecycle_eq_ok ht hdraws).mp hafter⟩
  · rintro ⟨hdraws, rfl⟩
    exact ⟨_, (upgradeHistory_eq_ok ht).mpr ⟨hdraws, rfl⟩,
      (upgradeLifecycle_eq_ok ht hdraws).mpr rfl⟩

end Upgrade

/-! ### The way back -/

theorem downgrade_eq_ok {t : Migrated} {before : Tables} : downgrade t = .ok before ↔
    (t.analyses.map fun row => row.sessionId).Nodup ∧
      before = ⟨t.sessions, t.analyses.map ThreadedRow.toAnalysisRow⟩ := by
  have hsessions : (t.analyses.map ThreadedRow.toAnalysisRow).map AnalysisRow.sessionId =
      t.analyses.map fun row => row.sessionId := by
    rw [List.map_map]
    rfl
  unfold downgrade downgradeHistory downgradeLifecycle
  simp only [enforce_bind_eq_ok, hsessions, pure, Except.pure, Except.ok.injEq]
  exact and_congr_right fun _ => eq_comm

theorem downgrade_migrated {genRandomUuid : Uuid → Uuid} {t : Tables} (ht : Valid t) :
    downgrade (migrated genRandomUuid t) = .ok t := by
  have hrows : (t.analyses.map (inThread genRandomUuid)).map ThreadedRow.toAnalysisRow = t.analyses := by
    rw [List.map_map]
    exact List.map_id _
  refine downgrade_eq_ok.mpr ⟨?_, ?_⟩
  · rw [migrated, List.map_map]
    exact ht.oneAnalysis
  · rw [migrated, hrows]

/-- Whatever has happened since, it is only a second analysis of a session that is in the way. -/
theorem downgrade_reads {t : Migrated} {db : Database} (h : Reads t db) :
    (∃ before, downgrade t = .ok before) ↔ (db.analyses.map SessionAnalysis.sessionId).Nodup := by
  have hsession : ∀ (row : ThreadedRow) analysis, row.read = some analysis →
      row.sessionId = analysis.sessionId := by
    intro row analysis hread
    obtain ⟨threadId, -, hrow⟩ := Option.bind_eq_some_iff.mp hread
    cases hrow
    rfl
  have hsessions : (t.analyses.map fun row => row.sessionId) =
      db.analyses.map SessionAnalysis.sessionId := by
    have hread := h.analyses
    generalize t.analyses = rows at hread ⊢
    generalize db.analyses = analyses at hread ⊢
    induction rows generalizing analyses with
    | nil => cases analyses <;> first | rfl | cases hread
    | cons row rows ih =>
      cases analyses with
      | nil => cases hread
      | cons analysis analyses =>
        rw [List.map_cons, List.map_cons, List.cons_eq_cons] at hread
        rw [List.map_cons, List.map_cons, hsession _ _ hread.1, ih _ hread.2]
  simp only [downgrade_eq_ok, hsessions, exists_and_left, exists_eq, and_true]

/-! ### The service on the migrated tables -/

section Service

variable {genRandomUuid : Uuid → Uuid} {t : Tables} {db : Database}

/-- The rows as the service reads them. -/
def readThread (genRandomUuid : Uuid → Uuid) (row : AnalysisRow) : AnalysisThread :=
  ⟨genRandomUuid row.sessionId, row.sessionId, .active, row.createdAt, some row.createdAt, some row.id⟩

def readAnalysis (genRandomUuid : Uuid → Uuid) (row : AnalysisRow) : SessionAnalysis :=
  ⟨row.id, row.sessionId, genRandomUuid row.sessionId, row.userId, row.provider, row.model,
    row.promptVersion, row.analysisVersion, row.analysisJson, row.rawResponse, true, 0, none,
    row.createdAt⟩

theorem reads_migrated : Reads (migrated genRandomUuid t) db ↔
    db.threads = t.analyses.map (readThread genRandomUuid) ∧
      db.analyses = t.analyses.map (readAnalysis genRandomUuid) := by
  have hthreads : (migrated genRandomUuid t).threads.map ActiveThreadRow.read =
      (t.analyses.map (readThread genRandomUuid)).map some := by
    rw [migrated, List.map_map, List.map_map]
    rfl
  have hanalyses : (migrated genRandomUuid t).analyses.map ThreadedRow.read =
      (t.analyses.map (readAnalysis genRandomUuid)).map some := by
    rw [migrated, List.map_map, List.map_map]
    rfl
  have hinj (α : Type) : Function.Injective (List.map (some : α → Option α)) :=
    List.map_injective_iff.mpr (Option.some_injective α)
  constructor
  · intro h
    exact ⟨hinj _ (h.threads.symm.trans hthreads), hinj _ (h.analyses.symm.trans hanalyses)⟩
  · rintro ⟨hdb, hdb'⟩
    exact ⟨by rw [hthreads, hdb], by rw [hanalyses, hdb']⟩

/-- The migrated tables meet the invariant of the service. -/
theorem wf_migrated (hdraws : DistinctDraws genRandomUuid t)
    (h : Reads (migrated genRandomUuid t) db) : ThreadHistory.Wf db := by
  obtain ⟨hthreads, hanalyses⟩ := reads_migrated.mp h
  refine ⟨?_, ?_, ?_, ?_⟩
  · rw [DistinctKeys, hthreads, List.map_map]
    exact hdraws
  · rw [hthreads]
    simp only [List.mem_map]
    rintro _ ⟨row, -, rfl⟩ _ ⟨row', -, rfl⟩ - - (hs : row.sessionId = row'.sessionId)
    exact congrArg genRandomUuid hs
  · rw [hthreads, hanalyses]
    simp only [List.mem_map]
    rintro _ ⟨row, hrow, rfl⟩
    have hrows : ThreadHistory.rowsOf (t.analyses.map (readAnalysis genRandomUuid))
        (readThread genRandomUuid row).id = [readAnalysis genRandomUuid row] := by
      rw [ThreadHistory.rowsOf, List.filter_map]
      exact congrArg (List.map (readAnalysis genRandomUuid)) (filter_of_nodup hdraws hrow)
    rw [hrows]
    exact ⟨rfl, .inr ⟨[], _, rfl, by simp, rfl, rfl⟩⟩
  · rw [hthreads, hanalyses]
    simp only [List.mem_map]
    rintro _ ⟨row, hrow, rfl⟩
    exact ⟨_, ⟨row, hrow, rfl⟩, rfl, rfl⟩

end Service

/-- The migrations go through exactly when their ids are different. The way back from them gives
the tables as they were, and is open later to tables in which no session has two analyses. The
service finds each analysis in the active thread of its session, and keeps the history. -/
theorem upgrade_correct [CharTable] (genRandomUuid : Uuid → Uuid) {t : Tables} (ht : Valid t) :
    ((∃ after, upgrade genRandomUuid t = .ok after) ↔ DistinctDraws genRandomUuid t) ∧
      ∀ after, upgrade genRandomUuid t = .ok after →
        downgrade after = .ok t ∧ (∃ db, Reads after db) ∧
        (∀ db, Reads after db →
          (∀ row ∈ db.analyses, ∃ thread ∈ db.threads, thread.id = row.threadId ∧
            thread.sessionId = row.sessionId ∧ thread.status = .active ∧
            thread.lastActivityAt = some row.createdAt ∧ thread.lastAnalysisId = some row.id) ∧
          ∀ es, Runs.Always ThreadHistory.step ThreadHistory.History db es ∧
            Runs.AlwaysStep ThreadHistory.step ThreadHistory.KeepsContent db es) ∧
        ∀ later db, Reads later db → ((∃ before, downgrade later = .ok before) ↔
          (db.analyses.map SessionAnalysis.sessionId).Nodup) := by
  simp only [upgrade_eq_ok ht]
  refine ⟨by simp, ?_⟩
  rintro after ⟨hdraws, rfl⟩
  refine ⟨downgrade_migrated ht, ?_, fun db hdb => ⟨?_, fun es => ?_⟩, fun _ _ => downgrade_reads⟩
  · exact ⟨{ Database.empty with
      threads := t.analyses.map (readThread genRandomUuid)
      analyses := t.analyses.map (readAnalysis genRandomUuid) }, reads_migrated.mpr ⟨rfl, rfl⟩⟩
  · obtain ⟨hthreads, hanalyses⟩ := reads_migrated.mp hdb
    rw [hthreads, hanalyses]
    simp only [List.mem_map]
    rintro _ ⟨row, hrow, rfl⟩
    exact ⟨_, ⟨row, hrow, rfl⟩, rfl, rfl, rfl, rfl, rfl⟩
  · have hwf := wf_migrated hdraws hdb
    refine ⟨(Runs.always_of_step (fun _ _ _ hw hs => (ThreadHistory.wf_step hw hs).1) hwf es).mono
      fun _ hw => hw.history, ?_⟩
    exact Runs.alwaysStep_of_step (Q := ThreadHistory.KeepsContent)
      (fun _ _ _ hw hs => ThreadHistory.wf_step hw hs) hwf es

/-! ### Example -/

section Example

local instance table : CharTable := ⟨Char.isAlphanum⟩

/-- Two sessions that have been analysed. -/
def tables : Tables where
  sessions := [1, 2, 3]
  analyses := [⟨11, 1, 7, "mock", "mock-v1", "1", "1", "\x7b\x7d", none, 50⟩,
    ⟨12, 3, 7, "mock", "mock-v1", "1", "1", "\x7b\x7d", none, 60⟩]

theorem valid_tables : Valid tables where
  keys := by simp [DistinctKeys, tables, key]
  oneAnalysis := by decide
  foreign := by decide

theorem upgrade_correct_tables :
    ((∃ after, upgrade (fun sessionId => 20 + sessionId) tables = .ok after) ↔
        DistinctDraws (fun sessionId => 20 + sessionId) tables) ∧
      downgrade (migrated (fun sessionId => 20 + sessionId) tables) = .ok tables := by
  have h := upgrade_correct (fun sessionId => 20 + sessionId) valid_tables
  exact ⟨h.1, (h.2 _ ((upgrade_eq_ok valid_tables).mpr ⟨by simp [DistinctDraws, tables], rfl⟩)).1⟩

end Example

end LiberNovus.Migrations.Threads

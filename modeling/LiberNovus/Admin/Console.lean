import LiberNovus.Database
import LiberNovus.Foundation.Joins

/-! The lists of the admin console. The rows of a session in three or four other tables are
counted by one query over the product of as many outer joins, grouped by the session.

Proved: whatever the sizes of the joined tables, every list has each of its rows once, and each
count is the number of rows in its own table alone. -/

namespace LiberNovus.Admin.Console

open LiberNovus.Runtime Rows Joins Analysis Session Dialogue

/-- A row of `dream_sessions`, with all its columns. -/
structure SessionRow where
  id : Uuid
  userId : ℤ
  status : String
  createdAt : Time
  updatedAt : Time
  lastActivityAt : Time
  deriving DecidableEq, Repr

instance : Keyed SessionRow Uuid := ⟨SessionRow.id⟩

instance : Keyed DialoguePolicyTrace Uuid := ⟨DialoguePolicyTrace.id⟩

/-- The tables that the console reads, with their primary keys. -/
structure Tables where
  sessions : List SessionRow
  dreams : List Dream
  jobs : List AnalysisJob
  analyses : List SessionAnalysis
  traces : List DialoguePolicyTrace
  distinctSessions : DistinctKeys sessions
  distinctDreams : DistinctKeys dreams
  distinctJobs : DistinctKeys jobs
  distinctAnalyses : DistinctKeys analyses
  distinctTraces : DistinctKeys traces

/-! ### The queries -/

structure AdminSessionListItem where
  id : Uuid
  userId : ℤ
  status : String
  createdAt : Time
  updatedAt : Time
  lastActivityAt : Time
  dreamCount : ℕ
  jobCount : ℕ
  analysisCount : ℕ
  deriving DecidableEq, Repr

structure AdminSessionDetail extends AdminSessionListItem where
  policyTraceCount : ℕ
  deriving DecidableEq, Repr

structure AdminUserListItem where
  userId : ℤ
  sessionCount : ℕ
  dreamCount : ℕ
  lastActivityAt : Option Time
  deriving DecidableEq, Repr

def sessionItem (session : SessionRow) (dreamCount jobCount analysisCount : ℕ) :
    AdminSessionListItem where
  id := session.id
  userId := session.userId
  status := session.status
  createdAt := session.createdAt
  updatedAt := session.updatedAt
  lastActivityAt := session.lastActivityAt
  dreamCount := dreamCount
  jobCount := jobCount
  analysisCount := analysisCount

/-- `ORDER BY created_at DESC, id DESC`. -/
def Newer (a b : SessionRow) : Prop :=
  b.createdAt < a.createdAt ∨ b.createdAt = a.createdAt ∧ b.id ≤ a.id

instance : DecidableRel Newer := fun _ _ => inferInstanceAs (Decidable (_ ∨ _))

/-- `ORDER BY … DESC NULLS LAST`. -/
def Later : Option Time → Option Time → Prop
  | some a, some b => b ≤ a
  | some _, none => True
  | none, some _ => False
  | none, none => True

instance : DecidableRel Later
  | some _, some _ => inferInstanceAs (Decidable (_ ≤ _))
  | some _, none => .isTrue trivial
  | none, some _ => .isFalse id
  | none, none => .isTrue trivial

def AdminUserListItem.Later (a b : AdminUserListItem) : Prop :=
  Console.Later a.lastActivityAt b.lastActivityAt

instance : DecidableRel AdminUserListItem.Later :=
  fun a b => inferInstanceAs (Decidable (Console.Later a.lastActivityAt b.lastActivityAt))

section Queries

variable (t : Tables)

/-- `.outerjoin(Dream, …)`. -/
def withDreams : List (SessionRow × Option Dream) :=
  leftJoin (fun session dream => dream.sessionId = session.id) t.sessions t.dreams

/-- `.outerjoin(AnalysisJob, …)`. -/
def withJobs : List ((SessionRow × Option Dream) × Option AnalysisJob) :=
  leftJoin (fun row job => job.sessionId = row.1.id) (withDreams t) t.jobs

/-- `.outerjoin(SessionAnalysis, …)`. -/
def withAnalyses :
    List (((SessionRow × Option Dream) × Option AnalysisJob) × Option SessionAnalysis) :=
  leftJoin (fun row analysis => analysis.sessionId = row.1.1.id) (withJobs t) t.analyses

/-- `.outerjoin(DialoguePolicyTrace, …)`. -/
def withTraces : List ((((SessionRow × Option Dream) × Option AnalysisJob) ×
    Option SessionAnalysis) × Option DialoguePolicyTrace) :=
  leftJoin (fun row trace => trace.sessionId = some row.1.1.1.id) (withAnalyses t) t.traces

/-- A row of the result of `list_admin_sessions`. -/
structure SessionCounts where
  session : SessionRow
  dreamCount : ℕ
  jobCount : ℕ
  analysisCount : ℕ

def SessionCounts.Newer (a b : SessionCounts) : Prop := Console.Newer a.session b.session

instance : DecidableRel SessionCounts.Newer := fun _ _ => inferInstanceAs (Decidable (_ ∨ _))

/-- A group by `DreamSession.id`. The columns of the session are the same in all its rows. -/
def sessionCounts
    (group : List (((SessionRow × Option Dream) × Option AnalysisJob) × Option SessionAnalysis)) :
    Option SessionCounts :=
  group.head?.map fun row =>
    { session := row.1.1.1
      dreamCount := countDistinct (group.map (·.1.1.2.map Dream.id))
      jobCount := countDistinct (group.map (·.1.2.map AnalysisJob.id))
      analysisCount := countDistinct (group.map (·.2.map SessionAnalysis.id)) }

def listAdminSessions : List AdminSessionListItem :=
  let groups := Ordering.grouped (fun row => row.1.1.1.id) (withAnalyses t)
  let rows := groups.filterMap fun group => sessionCounts group.2
  (rows.insertionSort SessionCounts.Newer).map fun row =>
    sessionItem row.session row.dreamCount row.jobCount row.analysisCount

def getAdminSession (sessionId : Uuid) : Option AdminSessionDetail :=
  let rows := (withTraces t).filter fun row => row.1.1.1.1.id = sessionId
  let groups := Ordering.grouped (fun row => row.1.1.1.1.id) rows
  (groups.filterMap fun group =>
    (sessionCounts (group.2.map (·.1))).map fun row =>
      { sessionItem row.session row.dreamCount row.jobCount row.analysisCount with
        policyTraceCount := countDistinct (group.2.map (·.2.map DialoguePolicyTrace.id)) }).head?

def listAdminUsers : List AdminUserListItem :=
  let groups := Ordering.grouped (fun row => row.1.userId) (withDreams t)
  let rows := groups.map fun group =>
    { userId := group.1
      sessionCount := countDistinct (group.2.map (some ·.1.id))
      dreamCount := countDistinct (group.2.map (·.2.map Dream.id))
      lastActivityAt := (group.2.map (·.1.lastActivityAt)).max? : AdminUserListItem }
  rows.insertionSort AdminUserListItem.Later

end Queries

variable {t : Tables} {k : Uuid}

/-! ### The numbers of rows -/

section Numbers

variable (t : Tables)

/-- The dreams with a session id. -/
def dreamCount (sessionId : Uuid) : ℕ := t.dreams.countP fun dream => dream.sessionId = sessionId

def jobCount (sessionId : Uuid) : ℕ := t.jobs.countP fun job => job.sessionId = sessionId

def analysisCount (sessionId : Uuid) : ℕ :=
  t.analyses.countP fun analysis => analysis.sessionId = sessionId

def traceCount (sessionId : Uuid) : ℕ :=
  t.traces.countP fun trace => trace.sessionId = some sessionId

/-- The dreams in the sessions of a user. -/
def userDreamCount (userId : ℤ) : ℕ :=
  t.dreams.countP fun dream =>
    ∃ session ∈ t.sessions, session.id = dream.sessionId ∧ session.userId = userId

def sessionCount (userId : ℤ) : ℕ := t.sessions.countP fun session => session.userId = userId

def lastActivityAt (userId : ℤ) : Option Time :=
  ((t.sessions.filter fun session => session.userId = userId).map SessionRow.lastActivityAt).max?

/-- What the query finds out about a session, -/
def counted (session : SessionRow) : SessionCounts where
  session := session
  dreamCount := dreamCount t session.id
  jobCount := jobCount t session.id
  analysisCount := analysisCount t session.id

/-- and about a user. -/
def userItem (userId : ℤ) : AdminUserListItem where
  userId := userId
  sessionCount := sessionCount t userId
  dreamCount := userDreamCount t userId
  lastActivityAt := lastActivityAt t userId

end Numbers

/-- The distinct keys of a column are counted by the rows that come up in it. -/
theorem countDistinct_column {ρ κ τ : Type*} [DecidableEq κ] [Keyed ρ κ] {rows : List ρ}
    (hrows : DistinctKeys rows) {joined : List τ} {column : τ → Option κ} {p : ρ → Prop}
    [DecidablePred p]
    (h : ∀ k, (∃ x ∈ joined, column x = some k) ↔ ∃ r ∈ rows, p r ∧ key r = k) :
    countDistinct (joined.map column) = rows.countP fun r => p r := by
  have hn : ((rows.filter fun r => p r).map key).Nodup := hrows.sublist (List.filter_sublist.map key)
  rw [countDistinct_eq hn fun k => ?_, List.length_map, List.countP_eq_length_filter]
  simp only [List.mem_map, List.mem_filter, decide_eq_true_eq, h, and_assoc]

/-! ### The joined rows -/

theorem exists_withDreams {P : SessionRow → Prop} :
    (∃ x ∈ withDreams t, P x.1) ↔ ∃ session ∈ t.sessions, P session := exists_fst_leftJoin

theorem exists_withJobs {P : SessionRow × Option Dream → Prop} :
    (∃ x ∈ withJobs t, P x.1) ↔ ∃ x ∈ withDreams t, P x := exists_fst_leftJoin

theorem exists_withAnalyses {P : (SessionRow × Option Dream) × Option AnalysisJob → Prop} :
    (∃ x ∈ withAnalyses t, P x.1) ↔ ∃ x ∈ withJobs t, P x := exists_fst_leftJoin

/-- A session stays through the joins. -/
theorem exists_session {P : SessionRow → Prop} :
    (∃ x ∈ withAnalyses t, P x.1.1.1) ↔ ∃ session ∈ t.sessions, P session :=
  (exists_withAnalyses (P := fun x => P x.1.1)).trans
    ((exists_withJobs (P := fun x => P x.1)).trans exists_withDreams)

section Columns

variable (hk : ∃ session ∈ t.sessions, session.id = k)
include hk

theorem exists_dream (i : ℕ) :
    (∃ x ∈ withAnalyses t, x.1.1.1.id = k ∧ x.1.1.2.map Dream.id = some i) ↔
      ∃ dream ∈ t.dreams, dream.sessionId = k ∧ dream.id = i :=
  calc
    _ ↔ ∃ x ∈ withJobs t, x.1.1.id = k ∧ x.1.2.map Dream.id = some i :=
      exists_withAnalyses (P := fun x => x.1.1.id = k ∧ x.1.2.map Dream.id = some i)
    _ ↔ ∃ x ∈ withDreams t, x.1.id = k ∧ x.2.map Dream.id = some i :=
      exists_withJobs (P := fun x => x.1.id = k ∧ x.2.map Dream.id = some i)
    _ ↔ _ := exists_partner hk

theorem exists_job (i : Uuid) :
    (∃ x ∈ withAnalyses t, x.1.1.1.id = k ∧ x.1.2.map AnalysisJob.id = some i) ↔
      ∃ job ∈ t.jobs, job.sessionId = k ∧ job.id = i :=
  calc
    _ ↔ ∃ x ∈ withJobs t, x.1.1.id = k ∧ x.2.map AnalysisJob.id = some i :=
      exists_withAnalyses (P := fun x => x.1.1.id = k ∧ x.2.map AnalysisJob.id = some i)
    _ ↔ _ := exists_partner (exists_withDreams.mpr hk)

theorem exists_analysis (i : Uuid) :
    (∃ x ∈ withAnalyses t, x.1.1.1.id = k ∧ x.2.map SessionAnalysis.id = some i) ↔
      ∃ analysis ∈ t.analyses, analysis.sessionId = k ∧ analysis.id = i := by
  refine exists_partner ((exists_withJobs (P := fun x => x.1.id = k)).mpr ?_)
  exact exists_withDreams.mpr hk

theorem exists_trace (i : Uuid) :
    (∃ x ∈ withTraces t, some x.1.1.1.1.id = some k ∧ x.2.map DialoguePolicyTrace.id = some i) ↔
      ∃ trace ∈ t.traces, trace.sessionId = some k ∧ trace.id = i := by
  refine exists_partner (exists_session (P := fun session => some session.id = some k) |>.mpr ?_)
  exact hk.imp fun _ h => ⟨h.1, congrArg some h.2⟩

end Columns

/-! ### The groups -/

/-- The rows of a group by session, in any order. -/
theorem sessionCounts_eq
    {rows : List (((SessionRow × Option Dream) × Option AnalysisJob) × Option SessionAnalysis)}
    (h : ∀ x, x ∈ rows ↔ x ∈ withAnalyses t ∧ x.1.1.1.id = k) :
    sessionCounts rows = (get t.sessions k).map (counted t) := by
  have hcolumn {κ : Type} (column : _ → Option κ) (i : κ) :
      (∃ x ∈ rows, column x = some i) ↔
        ∃ x ∈ withAnalyses t, x.1.1.1.id = k ∧ column x = some i := by
    simp only [h, and_assoc]
  cases rows with
  | nil =>
    have hk : get t.sessions k = none := get_eq_none.mpr fun hk => by
      obtain ⟨x, hx, hid⟩ := exists_session.mpr (List.mem_map.mp hk)
      exact absurd ((h x).mpr ⟨hx, hid⟩) List.not_mem_nil
    rw [hk]
    rfl
  | cons row rows =>
    obtain ⟨hrow, rfl⟩ := (h row).mp List.mem_cons_self
    obtain ⟨session, hs, hrow⟩ : ∃ session ∈ t.sessions, session = row.1.1.1 :=
      exists_session.mp ⟨row, hrow, rfl⟩
    have hget : get t.sessions row.1.1.1.id = some row.1.1.1 := hrow ▸ get_of_mem t.distinctSessions hs
    have hk : ∃ session ∈ t.sessions, session.id = row.1.1.1.id := ⟨session, hs, hrow ▸ rfl⟩
    have hdreams := countDistinct_column t.distinctDreams fun i =>
      (hcolumn _ i).trans (exists_dream hk i)
    have hjobs := countDistinct_column t.distinctJobs fun i =>
      (hcolumn _ i).trans (exists_job hk i)
    have hanalyses := countDistinct_column t.distinctAnalyses fun i =>
      (hcolumn _ i).trans (exists_analysis hk i)
    rw [hget, Option.map_some, sessionCounts, List.head?_cons, Option.map_some, hdreams, hjobs,
      hanalyses]
    rfl

/-! ### The sessions -/

instance : Std.Total SessionCounts.Newer :=
  ⟨by unfold SessionCounts.Newer Newer Time Uuid; omega⟩

instance : IsTrans SessionCounts SessionCounts.Newer :=
  ⟨by unfold SessionCounts.Newer Newer Time Uuid; omega⟩

/-- The groups by session are the sessions, each with its numbers. -/
theorem sessionRows_perm :
    ((Ordering.grouped (fun row => row.1.1.1.id) (withAnalyses t)).filterMap fun group =>
      sessionCounts group.2).Perm (t.sessions.map (counted t)) := by
  have hgroups : ((Ordering.grouped (fun row => row.1.1.1.id) (withAnalyses t)).filterMap fun group =>
      sessionCounts group.2) =
      ((Ordering.grouped (fun row => row.1.1.1.id) (withAnalyses t)).map Prod.fst).filterMap fun k =>
        (get t.sessions k).map (counted t) := by
    rw [List.filterMap_map]
    refine List.filterMap_congr ?_
    rintro ⟨k, rows⟩ hgroup
    obtain ⟨rfl, -⟩ := Ordering.mem_grouped.mp hgroup
    exact sessionCounts_eq fun x => by simp
  have hkeys : ((Ordering.grouped (fun row => row.1.1.1.id) (withAnalyses t)).map Prod.fst).Perm
      (t.sessions.map SessionRow.id) := by
    refine (List.perm_ext_iff_of_nodup (nodup_keys _ _) t.distinctSessions).mpr fun k => ?_
    rw [mem_keys, exists_session (P := fun session => session.id = k), List.mem_map]
    rfl
  rw [hgroups]
  refine (hkeys.filterMap _).trans (List.Perm.of_eq ?_)
  rw [List.filterMap_map, ← List.filterMap_eq_map]
  refine List.filterMap_congr fun session hs => ?_
  exact congrArg (Option.map _) (get_of_mem t.distinctSessions hs)

/-- `list_admin_sessions` has the sessions, each once and the newest first. -/
theorem listAdminSessions_eq :
    ∃ sessions : List SessionRow, sessions.Perm t.sessions ∧ sessions.Pairwise Newer ∧
      listAdminSessions t = sessions.map fun session =>
        sessionItem session (dreamCount t session.id) (jobCount t session.id)
          (analysisCount t session.id) := by
  obtain ⟨rows, hrows⟩ : ∃ rows, rows = (((Ordering.grouped (fun row => row.1.1.1.id)
    (withAnalyses t)).filterMap fun group => sessionCounts group.2).insertionSort
      SessionCounts.Newer) := ⟨_, rfl⟩
  have hp : rows.Perm (t.sessions.map (counted t)) :=
    hrows ▸ (List.perm_insertionSort _ _).trans sessionRows_perm
  refine ⟨rows.map SessionCounts.session, ?_, ?_, ?_⟩
  · have := hp.map SessionCounts.session
    rw [List.map_map] at this
    exact this.trans (.of_eq (List.map_id _))
  · rw [List.pairwise_map, hrows]
    exact List.pairwise_insertionSort SessionCounts.Newer _
  · rw [listAdminSessions, ← hrows, List.map_map]
    refine List.map_congr_left fun row hrow => ?_
    obtain ⟨session, -, rfl⟩ := List.mem_map.mp (hp.subset hrow)
    rfl

/-- The rows that `WHERE` keeps for a session. -/
theorem mem_filter_withTraces (sessionId : Uuid)
    (x : ((SessionRow × Option Dream) × Option AnalysisJob) × Option SessionAnalysis) :
    x ∈ ((withTraces t).filter fun row => row.1.1.1.1.id = sessionId).map (·.1) ↔
      x ∈ withAnalyses t ∧ x.1.1.1.id = sessionId := by
  have hstay : (∃ y ∈ withTraces t, y.1 = x) ↔ ∃ y ∈ withAnalyses t, y = x :=
    exists_fst_leftJoin (P := fun y => y = x)
  rw [exists_eq_right] at hstay
  simp only [List.mem_map, List.mem_filter, decide_eq_true_eq]
  constructor
  · rintro ⟨y, ⟨hy, hid⟩, rfl⟩
    exact ⟨hstay.mp ⟨y, hy, rfl⟩, hid⟩
  · rintro ⟨hx, hid⟩
    obtain ⟨y, hy, rfl⟩ := hstay.mpr hx
    exact ⟨y, ⟨hy, hid⟩, rfl⟩

/-- `get_admin_session` has the session, when there is one. -/
theorem getAdminSession_eq (sessionId : Uuid) :
    getAdminSession t sessionId = (get t.sessions sessionId).map fun session =>
      { sessionItem session (dreamCount t session.id) (jobCount t session.id)
          (analysisCount t session.id) with
        policyTraceCount := traceCount t session.id } := by
  obtain ⟨rows, hrows⟩ : ∃ rows, rows = (withTraces t).filter fun row =>
    row.1.1.1.1.id = sessionId := ⟨_, rfl⟩
  have hcounts : sessionCounts (rows.map (·.1)) = (get t.sessions sessionId).map (counted t) :=
    sessionCounts_eq fun x => hrows ▸ mem_filter_withTraces sessionId x
  have hsame : ∀ row ∈ rows, row.1.1.1.1.id = sessionId := fun row hrow => by
    rw [hrows, List.mem_filter] at hrow
    exact of_decide_eq_true hrow.2
  rw [getAdminSession, ← hrows, grouped_of_forall hsame]
  cases hget : get t.sessions sessionId with
  | none =>
    rw [hget, Option.map_none] at hcounts
    split <;> simp [hcounts]
  | some session =>
    obtain rfl : session.id = sessionId := key_of_get hget
    have htraces : countDistinct (rows.map (·.2.map DialoguePolicyTrace.id)) =
        traceCount t session.id := by
      refine countDistinct_column t.distinctTraces fun i => ?_
      refine Iff.trans ?_ (exists_trace ⟨session, mem_of_get hget, rfl⟩ i)
      simp [hrows, and_assoc]
    rw [hget, Option.map_some] at hcounts
    rw [if_neg (by rintro rfl; cases hcounts)]
    simp only [List.filterMap_cons, hcounts, htraces]
    rfl

/-! ### The users -/

instance : Std.Total AdminUserListItem.Later where
  total a b := by
    rcases ha : a.lastActivityAt with _ | x <;> rcases hb : b.lastActivityAt with _ | y <;>
      simp [AdminUserListItem.Later, Console.Later, ha, hb, le_total]

instance : IsTrans AdminUserListItem AdminUserListItem.Later where
  trans a b c := by
    unfold AdminUserListItem.Later
    rcases a.lastActivityAt with _ | x <;> rcases b.lastActivityAt with _ | y <;>
      rcases c.lastActivityAt with _ | z <;> grind [Console.Later]

/-- The largest value does not depend on how often a value comes up. -/
theorem max?_congr {l l' : List Time} (h : ∀ x, x ∈ l ↔ x ∈ l') : l.max? = l'.max? := by
  refine Option.ext fun x => ?_
  simp only [List.max?_eq_some_iff, h]

section Users

variable (t) (userId : ℤ)

def userRows : List (SessionRow × Option Dream) :=
  (withDreams t).filter fun row => row.1.userId = userId

theorem exists_userRow {P : SessionRow × Option Dream → Prop} :
    (∃ x ∈ userRows t userId, P x) ↔ ∃ x ∈ withDreams t, x.1.userId = userId ∧ P x := by
  simp [userRows, and_assoc]

theorem countDistinct_sessions :
    countDistinct ((userRows t userId).map (some ·.1.id)) = sessionCount t userId := by
  refine countDistinct_column t.distinctSessions fun i => (exists_userRow t userId).trans ?_
  simp only [Option.some.injEq]
  exact exists_withDreams (P := fun session => session.userId = userId ∧ session.id = i)

theorem countDistinct_dreams :
    countDistinct ((userRows t userId).map (·.2.map Dream.id)) = userDreamCount t userId := by
  refine countDistinct_column t.distinctDreams fun i => (exists_userRow t userId).trans ?_
  refine (exists_snd_leftJoin (P := fun session : SessionRow => session.userId = userId)).trans ?_
  simp only [eq_comm]
  rfl

theorem max?_activity :
    ((userRows t userId).map (·.1.lastActivityAt)).max? = lastActivityAt t userId := by
  refine max?_congr fun x => ?_
  simp only [List.mem_map, exists_userRow, List.mem_filter, decide_eq_true_eq, and_assoc]
  exact exists_withDreams (P := fun session => session.userId = userId ∧ session.lastActivityAt = x)

end Users

/-- `list_admin_users` has the owners of the sessions, each once and the most recent first. -/
theorem listAdminUsers_eq :
    ∃ userIds : List ℤ, userIds.Nodup ∧
      (∀ userId, userId ∈ userIds ↔ ∃ session ∈ t.sessions, session.userId = userId) ∧
      userIds.Pairwise (fun a b => Later (lastActivityAt t a) (lastActivityAt t b)) ∧
      listAdminUsers t = userIds.map (userItem t) := by
  have hgroups : listAdminUsers t = (((Ordering.grouped (fun row => row.1.userId)
      (withDreams t)).map Prod.fst).map (userItem t)).insertionSort AdminUserListItem.Later := by
    rw [List.map_map, listAdminUsers]
    refine congrArg _ (List.map_congr_left ?_)
    rintro ⟨userId, rows⟩ hgroup
    obtain ⟨rfl, -⟩ := Ordering.mem_grouped.mp hgroup
    have hsessions := countDistinct_sessions t userId
    have hdreams := countDistinct_dreams t userId
    have hactivity := max?_activity t userId
    simp only [userRows] at hsessions hdreams hactivity
    simp only [Function.comp_apply, userItem, hsessions, hdreams, hactivity]
  have hp : (listAdminUsers t).Perm (((Ordering.grouped (fun row => row.1.userId)
      (withDreams t)).map Prod.fst).map (userItem t)) := hgroups ▸ List.perm_insertionSort _ _
  have hitems : (listAdminUsers t).map (userItem t ·.userId) = listAdminUsers t := by
    refine (List.map_congr_left fun row hrow => ?_).trans (List.map_id _)
    obtain ⟨userId, -, rfl⟩ := List.mem_map.mp (hp.subset hrow)
    rfl
  have hids := hp.map AdminUserListItem.userId
  rw [List.map_map] at hids
  replace hids := hids.trans (.of_eq (List.map_id _))
  refine ⟨(listAdminUsers t).map AdminUserListItem.userId, ?_, ?_, ?_, ?_⟩
  · exact hids.nodup_iff.mpr (nodup_keys _ _)
  · intro userId
    rw [hids.mem_iff, mem_keys]
    exact exists_withDreams (P := fun session => session.userId = userId)
  · have hsorted : (listAdminUsers t).Pairwise AdminUserListItem.Later :=
      hgroups ▸ List.pairwise_insertionSort AdminUserListItem.Later _
    rw [← hitems, List.pairwise_map] at hsorted
    rwa [List.pairwise_map]
  · rw [List.map_map]
    exact hitems.symm

/-- Every counter of the console is the number of rows it names, and the lists have every session
and every user with a session once. -/
theorem counters_exact (t : Tables) :
    (∃ sessions : List SessionRow, sessions.Perm t.sessions ∧ sessions.Pairwise Newer ∧
      listAdminSessions t = sessions.map fun session =>
        sessionItem session (dreamCount t session.id) (jobCount t session.id)
          (analysisCount t session.id)) ∧
    (∀ sessionId, getAdminSession t sessionId = (get t.sessions sessionId).map fun session =>
      { sessionItem session (dreamCount t session.id) (jobCount t session.id)
          (analysisCount t session.id) with
        policyTraceCount := traceCount t session.id }) ∧
    ∃ userIds : List ℤ, userIds.Nodup ∧
      (∀ userId, userId ∈ userIds ↔ ∃ session ∈ t.sessions, session.userId = userId) ∧
      userIds.Pairwise (fun a b => Later (lastActivityAt t a) (lastActivityAt t b)) ∧
      listAdminUsers t = userIds.map (userItem t) :=
  ⟨listAdminSessions_eq, getAdminSession_eq, listAdminUsers_eq⟩

end LiberNovus.Admin.Console

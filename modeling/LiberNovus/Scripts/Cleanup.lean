import LiberNovus.Integrity.Schema

/-! The script that removes the sessions without a policy trace, with all that belongs to them. It
deletes from the traces, analyses, jobs, threads, summaries, dreams and sessions, and in that
order; the conversation turns and the memories are not deleted.

Proved: on tables whose foreign keys hold, the script goes through exactly when nothing that it
leaves refers to something that it takes. It has then taken the rows of those sessions and
nothing else, as many as the preview says; the foreign keys hold, and there is nothing left for
another call. Otherwise, and without `--execute`, the tables are as they were. -/

namespace LiberNovus.Scripts

open ForeignKeys Integrity LiberNovus.Runtime Analysis Session Memory Dialogue

/-! ### The script -/

def legacySessionIds (db : Database) : List Uuid :=
  (db.sessions.filter fun session =>
    ¬ ∃ trace ∈ db.traces, trace.sessionId = some session.id).map DreamSession.id

structure Counts where
  sessions : ℕ
  dreams : ℕ
  jobs : ℕ
  analyses : ℕ
  threads : ℕ
  summaries : ℕ
  policyTraces : ℕ
  deriving DecidableEq, Repr

def countForSessions (db : Database) (ids : List Uuid) : Counts :=
  if ids = [] then ⟨0, 0, 0, 0, 0, 0, 0⟩
  else
    { sessions := ids.length
      dreams := db.dreams.countP fun row => row.sessionId ∈ ids
      jobs := db.jobs.countP fun row => row.sessionId ∈ ids
      analyses := db.analyses.countP fun row => row.sessionId ∈ ids
      threads := db.threads.countP fun row => row.sessionId ∈ ids
      summaries := db.summaries.countP fun row => row.sessionId ∈ ids
      policyTraces := db.traces.countP fun row => ∃ k ∈ row.sessionId, k ∈ ids }

section Statements

variable (ids : List Uuid) (db : Database)

def deleteTraces : Database :=
  { db with traces := db.traces.filter fun row => ¬ ∃ k ∈ row.sessionId, k ∈ ids }

/-- `UPDATE analysis_threads SET last_analysis_id = NULL`. -/
def clearLastAnalyses : Database :=
  { db with threads := db.threads.map fun row =>
      if row.sessionId ∈ ids then { row with lastAnalysisId := none } else row }

def deleteAnalyses : Database :=
  { db with analyses := db.analyses.filter fun row => row.sessionId ∉ ids }

def deleteJobs : Database := { db with jobs := db.jobs.filter fun row => row.sessionId ∉ ids }

def deleteThreads : Database :=
  { db with threads := db.threads.filter fun row => row.sessionId ∉ ids }

def deleteSummaries : Database :=
  { db with summaries := db.summaries.filter fun row => row.sessionId ∉ ids }

def deleteDreams : Database := { db with dreams := db.dreams.filter fun row => row.sessionId ∉ ids }

def deleteSessions : Database := { db with sessions := db.sessions.filter fun row => row.id ∉ ids }

def statements : List (Database → Database) :=
  [deleteTraces ids, clearLastAnalyses ids, deleteAnalyses ids, deleteJobs ids, deleteThreads ids,
    deleteSummaries ids, deleteDreams ids, deleteSessions ids]

end Statements

/-- `cleanup_legacy_sessions`: what it returns or the foreign key that it runs into, and the
tables behind it. -/
def cleanupLegacySessions (execute : Bool) (db : Database) : Except Reference Counts × Database :=
  let ids := legacySessionIds db
  let preview := countForSessions db ids
  if ids = [] ∨ execute = false then (.ok preview, db)
  else
    match schema.script (statements ids) db with
    | .ok after => (.ok preview, after)
    | .error ref => (.error ref, db)

/-! ### What is left -/

/-- The tables without the rows of the sessions. -/
def without (ids : List Uuid) (db : Database) : Database :=
  { db with
    sessions := db.sessions.filter fun row => row.id ∉ ids
    dreams := db.dreams.filter fun row => row.sessionId ∉ ids
    summaries := db.summaries.filter fun row => row.sessionId ∉ ids
    jobs := db.jobs.filter fun row => row.sessionId ∉ ids
    threads := db.threads.filter fun row => row.sessionId ∉ ids
    analyses := db.analyses.filter fun row => row.sessionId ∉ ids
    traces := db.traces.filter fun row => ¬ ∃ k ∈ row.sessionId, k ∈ ids }

section Script

variable {ids : List Uuid} {db : Database}

/-- A thread that stays has kept its last analysis. -/
theorem threads_cleared (threads : List AnalysisThread) :
    (threads.map fun row => if row.sessionId ∈ ids then { row with lastAnalysisId := none } else row).filter
      (fun row => row.sessionId ∉ ids) = threads.filter fun row => row.sessionId ∉ ids := by
  induction threads with
  | nil => rfl
  | cons row threads ih =>
    by_cases h : row.sessionId ∈ ids
    · simpa [h] using ih
    · simpa [h] using ih

theorem final_statements : Schema.final (statements ids) db = without ids db := by
  simp only [statements, Schema.final, deleteTraces, clearLastAnalyses, deleteAnalyses, deleteJobs,
    deleteThreads, deleteSummaries, deleteDreams, deleteSessions, threads_cleared, without]

theorem map_filter_subset {ρ β : Type} (p : ρ → Bool) (column : ρ → β) (rows : List ρ) :
    (rows.filter p).map column ⊆ rows.map column := (List.filter_sublist.map column).subset

theorem filterMap_filter_subset {ρ β : Type} (p : ρ → Bool) (column : ρ → Option β) (rows : List ρ) :
    (rows.filter p).filterMap column ⊆ rows.filterMap column :=
  (List.filter_sublist.filterMap column).subset

theorem deletes_clearLastAnalyses : schema.Deletes (clearLastAnalyses ids) where
  references ref db := by
    cases ref
    case threadSession => exact fun _ => (mem_column fun row => by split <;> rfl).mp
    case threadLastAnalysis =>
      intro k hk
      obtain ⟨_, hmem, hk⟩ := List.mem_filterMap.mp hk
      obtain ⟨row, hrow, rfl⟩ := List.mem_map.mp hmem
      split at hk
      · cases hk
      · exact List.mem_filterMap.mpr ⟨row, hrow, hk⟩
    all_goals exact List.Subset.refl _
  targets ref db := by
    cases ref
    case jobThread | analysisThread => exact fun _ => (mem_column fun row => by split <;> rfl).mp
    all_goals exact List.Subset.refl _

theorem deletes_statements : ∀ f ∈ statements ids, schema.Deletes f := by
  have hother : ∀ f ∈ [deleteTraces ids, deleteAnalyses ids, deleteJobs ids, deleteThreads ids,
      deleteSummaries ids, deleteDreams ids, deleteSessions ids], schema.Deletes f := by
    intro f hf
    simp only [List.mem_cons, List.not_mem_nil, or_false] at hf
    rcases hf with rfl | rfl | rfl | rfl | rfl | rfl | rfl
    all_goals
      constructor <;> intro ref db <;> cases ref <;>
        first
          | exact List.Subset.refl _
          | exact map_filter_subset _ _ _
          | exact filterMap_filter_subset _ _ _
  intro f hf
  simp only [statements, List.mem_cons, List.not_mem_nil, or_false] at hf
  rcases hf with rfl | rfl | hf
  · exact hother _ (by simp)
  · exact deletes_clearLastAnalyses
  · exact hother f (by simp [hf])

/-- Only the threads that stay still have a last analysis. -/
theorem lastAnalyses_cleared (threads : List AnalysisThread) :
    (threads.map fun row => if row.sessionId ∈ ids then { row with lastAnalysisId := none } else
      row).filterMap AnalysisThread.lastAnalysisId ⊆
      ((threads.map fun row => if row.sessionId ∈ ids then { row with lastAnalysisId := none } else
        row).filter fun row => row.sessionId ∉ ids).filterMap AnalysisThread.lastAnalysisId := by
  rw [threads_cleared]
  intro k hk
  obtain ⟨_, hmem, hk⟩ := List.mem_filterMap.mp hk
  obtain ⟨row, hrow, rfl⟩ := List.mem_map.mp hmem
  split at hk
  · cases hk
  · next hout =>
    exact List.mem_filterMap.mpr ⟨row, List.mem_filter.mpr ⟨hrow, decide_eq_true hout⟩, hk⟩

theorem childrenFirst_statements : schema.ChildrenFirst (statements ids) db := by
  refine ⟨fun ref => .inl ?_, fun ref => .inl ?_, fun ref => ?_, fun ref => ?_, fun ref => ?_,
    fun ref => .inl ?_, fun ref => ?_, fun ref => .inr (List.Subset.refl _), trivial⟩
  · cases ref <;> rfl
  · cases ref
    case jobThread | analysisThread => exact map_column (fun row => by split <;> rfl) db.threads
    all_goals rfl
  · cases ref
    case threadLastAnalysis => exact .inr (lastAnalyses_cleared db.threads)
    all_goals exact .inl rfl
  · cases ref
    case traceJob => exact .inr (List.Subset.refl _)
    all_goals exact .inl rfl
  · cases ref
    case jobThread | analysisThread => exact .inr (List.Subset.refl _)
    all_goals exact .inl rfl
  · cases ref <;> rfl
  · cases ref
    case turnDream | jobDream | memoryDream | traceDream => exact .inr (List.Subset.refl _)
    all_goals exact .inl rfl

end Script

/-! ### A call -/

/-- The script takes the row with this key. -/
def Taken (db : Database) (parent : Parent) (k : ℕ) : Prop :=
  k ∈ parent.keys db ∧ k ∉ parent.keys (without (legacySessionIds db) db)

/-- Nothing that the script leaves refers to something that it takes. -/
def Detached (db : Database) : Prop :=
  ∀ ref : Reference, ∀ k ∈ ref.values (without (legacySessionIds db) db), ¬ Taken db ref.parent k

/-- What the script has done when it goes through. -/
structure CleanedUp (db : Database) (counts : Counts) (after : Database) : Prop where
  tables : after = without (legacySessionIds db) db
  sessions : counts.sessions + after.sessions.length = db.sessions.length
  dreams : counts.dreams + after.dreams.length = db.dreams.length
  jobs : counts.jobs + after.jobs.length = db.jobs.length
  analyses : counts.analyses + after.analyses.length = db.analyses.length
  threads : counts.threads + after.threads.length = db.threads.length
  summaries : counts.summaries + after.summaries.length = db.summaries.length
  traces : counts.policyTraces = 0 ∧ after.traces = db.traces
  integral : schema.Integral after
  finished : ∀ execute,
    cleanupLegacySessions execute after = (.ok ⟨0, 0, 0, 0, 0, 0, 0⟩, after)

section Call

variable {db : Database} {ids : List Uuid}

theorem values_without_subset (ref : Reference) : ref.values (without ids db) ⊆ ref.values db := by
  rw [← final_statements]
  exact Schema.references_final deletes_statements ref db

theorem integral_without_iff (h : schema.Integral db) :
    schema.Integral (without (legacySessionIds db) db) ↔ Detached db := by
  constructor
  · exact fun hafter ref k hk htaken => htaken.2 (hafter ref k hk)
  · intro hdetached ref k hk
    by_contra hgone
    exact hdetached ref k hk ⟨h ref k (values_without_subset ref hk), hgone⟩

theorem mem_legacySessionIds {id : Uuid} : id ∈ legacySessionIds db ↔
    InSession id db ∧ ¬ ∃ trace ∈ db.traces, trace.sessionId = some id := by
  simp only [legacySessionIds, InSession, Parent.keys, List.mem_map, List.mem_filter, decide_eq_true_eq]
  constructor
  · rintro ⟨session, ⟨hs, hlegacy⟩, rfl⟩
    exact ⟨⟨session, hs, rfl⟩, hlegacy⟩
  · rintro ⟨⟨session, hs, rfl⟩, hlegacy⟩
    exact ⟨session, ⟨hs, hlegacy⟩, rfl⟩

/-- No trace belongs to a legacy session. -/
theorem trace_not_legacy {trace : DialoguePolicyTrace} (ht : trace ∈ db.traces) :
    ¬ ∃ k ∈ trace.sessionId, k ∈ legacySessionIds db := by
  rintro ⟨k, hk, hlegacy⟩
  exact (mem_legacySessionIds.mp hlegacy).2 ⟨trace, ht, hk⟩

theorem traces_without : (without (legacySessionIds db) db).traces = db.traces :=
  List.filter_eq_self.mpr fun _ ht => decide_eq_true (trace_not_legacy ht)

theorem legacySessionIds_without : legacySessionIds (without (legacySessionIds db) db) = [] := by
  refine List.eq_nil_iff_forall_not_mem.mpr fun id hid => ?_
  rw [mem_legacySessionIds, traces_without] at hid
  obtain ⟨hin, hnone⟩ := hid
  obtain ⟨session, hs, rfl⟩ := List.mem_map.mp hin
  obtain ⟨hs, hkept⟩ := List.mem_filter.mp hs
  exact of_decide_eq_true hkept (mem_legacySessionIds.mpr ⟨List.mem_map_of_mem hs, hnone⟩)

theorem cleanup_of_nil (h : legacySessionIds db = []) (execute : Bool) :
    cleanupLegacySessions execute db = (.ok ⟨0, 0, 0, 0, 0, 0, 0⟩, db) := by
  simp [cleanupLegacySessions, h, countForSessions]

theorem countP_add_filter {ρ : Type} (p : ρ → Prop) [DecidablePred p] (rows : List ρ) :
    (rows.countP fun row => p row) + (rows.filter fun row => ¬ p row).length = rows.length := by
  rw [← List.countP_eq_length_filter, List.length_eq_countP_add_countP (fun row => decide (p row))]
  congr 2
  funext row
  simp

/-- All rows of one key are taken, or none. -/
theorem length_legacySessionIds :
    (legacySessionIds db).length = db.sessions.countP fun row => row.id ∈ legacySessionIds db := by
  rw [legacySessionIds, List.length_map, ← List.countP_eq_length_filter]
  refine List.countP_congr fun row hrow => ?_
  rw [← legacySessionIds]
  simp only [decide_eq_true_eq, mem_legacySessionIds]
  exact ⟨fun hnone => ⟨List.mem_map_of_mem hrow, hnone⟩, fun h => h.2⟩

theorem countForSessions_eq : countForSessions db ids =
    { sessions := ids.length
      dreams := db.dreams.countP fun row => row.sessionId ∈ ids
      jobs := db.jobs.countP fun row => row.sessionId ∈ ids
      analyses := db.analyses.countP fun row => row.sessionId ∈ ids
      threads := db.threads.countP fun row => row.sessionId ∈ ids
      summaries := db.summaries.countP fun row => row.sessionId ∈ ids
      policyTraces := db.traces.countP fun row => ∃ k ∈ row.sessionId, k ∈ ids } := by
  unfold countForSessions
  split
  · next h => simp [h]
  · rfl

theorem cleanedUp (h : schema.Integral db) (hdetached : Detached db) :
    CleanedUp db (countForSessions db (legacySessionIds db)) (without (legacySessionIds db) db) where
  tables := rfl
  sessions := by
    rw [countForSessions_eq, length_legacySessionIds]
    exact countP_add_filter (fun row : DreamSession => row.id ∈ legacySessionIds db) db.sessions
  dreams := by
    rw [countForSessions_eq]
    exact countP_add_filter (fun row : Dream => row.sessionId ∈ legacySessionIds db) db.dreams
  jobs := by
    rw [countForSessions_eq]
    exact countP_add_filter (fun row : AnalysisJob => row.sessionId ∈ legacySessionIds db) db.jobs
  analyses := by
    rw [countForSessions_eq]
    exact countP_add_filter (fun row : SessionAnalysis => row.sessionId ∈ legacySessionIds db) db.analyses
  threads := by
    rw [countForSessions_eq]
    exact countP_add_filter (fun row : AnalysisThread => row.sessionId ∈ legacySessionIds db) db.threads
  summaries := by
    rw [countForSessions_eq]
    exact countP_add_filter (fun row : SessionSummary => row.sessionId ∈ legacySessionIds db) db.summaries
  traces := by
    refine ⟨?_, traces_without⟩
    rw [countForSessions_eq]
    exact List.countP_eq_zero.mpr fun _ ht => mt of_decide_eq_true (trace_not_legacy ht)
  integral := (integral_without_iff h).mpr hdetached
  finished := cleanup_of_nil legacySessionIds_without

/-- What `--execute` comes to. -/
theorem cleanup_cases (h : schema.Integral db) :
    Detached db ∧ cleanupLegacySessions true db =
        (.ok (countForSessions db (legacySessionIds db)), without (legacySessionIds db) db) ∨
      ¬ Detached db ∧ ∃ ref, cleanupLegacySessions true db = (.error ref, db) ∧
        ¬ schema.Holds ref (without (legacySessionIds db) db) := by
  by_cases hnil : legacySessionIds db = []
  · have hsame : without [] db = db := by simp [without]
    rw [cleanup_of_nil hnil, ← integral_without_iff h, hnil, hsame]
    exact .inl ⟨h, by simp [countForSessions]⟩
  rcases hscript : schema.script (statements (legacySessionIds db)) db with ref | after
  · have hfails := Schema.not_holds_of_script deletes_statements childrenFirst_statements h hscript
    rw [final_statements] at hfails
    refine .inr ⟨fun hdetached => hfails ((integral_without_iff h).mpr hdetached ref), ref, ?_, hfails⟩
    simp [cleanupLegacySessions, hnil, hscript]
  · have hok := (Schema.script_eq_ok deletes_statements childrenFirst_statements h).mp hscript
    rw [final_statements] at hok
    refine .inl ⟨(integral_without_iff h).mp hok.2, ?_⟩
    simp [cleanupLegacySessions, hnil, hscript, hok.1]

/-- Of the rows that the script leaves, only turns and memories can be in a session that it
takes. -/
theorem left_in_taken {ref : Reference} {k : ℕ} (href : ref.parent = .sessions)
    (hk : k ∈ ref.values (without (legacySessionIds db) db)) (htaken : Taken db .sessions k) :
    ref = .turnSession ∨ ref = .memorySession := by
  have hlegacy : k ∈ legacySessionIds db := by
    by_contra hkept
    obtain ⟨session, hs, rfl⟩ := List.mem_map.mp htaken.1
    refine htaken.2 (List.mem_map_of_mem (List.mem_filter.mpr ⟨hs, decide_eq_true hkept⟩))
  have hfiltered : ∀ {ρ : Type} {column : ρ → Uuid} {rows : List ρ},
      k ∉ (rows.filter fun row => column row ∉ legacySessionIds db).map column := by
    intro ρ column rows hmem
    obtain ⟨row, hrow, rfl⟩ := List.mem_map.mp hmem
    exact of_decide_eq_true (List.mem_filter.mp hrow).2 hlegacy
  cases ref
  case turnSession => exact .inl rfl
  case memorySession => exact .inr rfl
  case dreamSession | summarySession | jobSession | threadSession | analysisSession =>
    exact absurd hk hfiltered
  case traceSession =>
    obtain ⟨trace, ht, htrace⟩ := List.mem_filterMap.mp hk
    have hnone := of_decide_eq_true (List.mem_filter.mp ht).2
    exact absurd ⟨k, htrace, hlegacy⟩ hnone
  all_goals cases href

/-- The script does all of it or nothing, and which of the two is a matter of the references that
it would leave behind. -/
theorem cleanupLegacySessions_correct (h : schema.Integral db) :
    ((∃ counts, (cleanupLegacySessions true db).1 = .ok counts) ↔ Detached db) ∧
      (∀ counts after, cleanupLegacySessions true db = (.ok counts, after) →
        CleanedUp db counts after ∧ cleanupLegacySessions false db = (.ok counts, db)) ∧
      ∀ ref after, cleanupLegacySessions true db = (.error ref, after) → after = db ∧
        (ref.parent = .sessions → ref = .turnSession ∨ ref = .memorySession) ∧
        ∃ k ∈ ref.values (without (legacySessionIds db) db), Taken db ref.parent k := by
  rcases cleanup_cases h with ⟨hdetached, hcall⟩ | ⟨hattached, ref, hcall, hfails⟩
  · rw [hcall]
    refine ⟨⟨fun _ => hdetached, fun _ => ⟨_, rfl⟩⟩, ?_, by rintro _ _ ⟨⟩⟩
    rintro counts after ⟨⟩
    exact ⟨cleanedUp h hdetached, by simp [cleanupLegacySessions]⟩
  · have hleft : ∃ k ∈ ref.values (without (legacySessionIds db) db), Taken db ref.parent k := by
      by_contra hnone
      refine hfails fun k hk => ?_
      by_contra hgone
      exact hnone ⟨k, hk, h ref k (values_without_subset ref hk), hgone⟩
    rw [hcall]
    refine ⟨⟨by rintro ⟨_, ⟨⟩⟩, fun hdetached => absurd hdetached hattached⟩, by rintro _ _ ⟨⟩, ?_⟩
    rintro _ _ ⟨⟩
    refine ⟨rfl, fun hparent => ?_, hleft⟩
    obtain ⟨k, hk, htaken⟩ := hleft
    exact left_in_taken hparent hk (hparent ▸ htaken)

/-- A session from before the traces, with a dream and its summary, beside one with a trace. -/
theorem cleanupLegacySessions_correct_summary :
    let session : Uuid → DreamSession := fun id => ⟨id, 7, .closed, 0, 0⟩
    let trace : DialoguePolicyTrace :=
      ⟨4, 7, some 2, none, none, ⟨0, 0, .shortFragment, .new, true, false⟩,
        ⟨.noop, .none, "empty_input"⟩, .noop, "empty_input", .noop, 0⟩
    let db : Database := { Database.empty with
      sessions := [session 1, session 2]
      dreams := [⟨5, 7, "a house", 0, 1⟩]
      summaries := [⟨⟨1, [], [], none⟩, 3, 1, 7, 0⟩]
      traces := [trace] }
    CleanedUp db ⟨1, 1, 0, 0, 0, 1, 0⟩
      { db with sessions := [session 2], dreams := [], summaries := [] } := by
  intro session trace db
  have hintegral : schema.Integral db := by
    intro ref
    cases ref <;> decide
  exact ((cleanupLegacySessions_correct hintegral).2.1 _ _ (by decide)).1

end Call

end LiberNovus.Scripts

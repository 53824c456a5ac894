import Mathlib.Data.List.Range
import LiberNovus.Analysis.Outcomes
import LiberNovus.Analysis.Persistence
import LiberNovus.Foundation.Runs
import LiberNovus.Session.Intake

/-! Analyses that are run one at a time, each in a transaction of its own, from an empty
database. Sessions are created and closed and dreams are added between them.

Proved: a session has at most one active thread, the latest analysis of a thread is the one
with the largest index and the one its thread names, and an analysis leaves the content of
every earlier one as it is. -/

namespace LiberNovus.Analysis.ThreadHistory

open Rows Runs Session UnitOfWork Pipeline

/-! ### The system -/

inductive Event where
  | createSession (userId : ℤ) (id : Uuid) (now startedAt : Time)
  | closeSession (sessionId : Uuid)
  | addDream (dream : Dream)
  | analyse (env : Environment) (sessionId : Uuid) (mode : AnalysisMode)

/-- The environment of a transaction during which nothing else is committed. -/
def alone (env : Environment) : Environment := { env with meanwhile := fun _ db => db }

/-- The identifiers it draws are unused. -/
def Fresh (env : Environment) (db : Database) : Prop :=
  (∀ reresolve, get db.threads (env.threadId reresolve) = none) ∧
    get db.analyses env.analysisId = none

instance (env : Environment) (db : Database) : Decidable (Fresh env db) :=
  inferInstanceAs (Decidable (_ ∧ _))

section System

variable [CharTable]

/-- One call; an analysis that raises is rolled back. -/
def step (db : Database) : Event → Option Database
  | .createSession userId id now startedAt =>
    if get db.sessions id = none then
      some { db with sessions := (Session.createSession db.sessions userId id now startedAt).2 }
    else none
  | .closeSession sessionId =>
    some { db with sessions := Session.closeSession db.sessions sessionId }
  | .addDream dream => some { db with dreams := db.dreams ++ [dream] }
  | .analyse env sessionId mode =>
    if Fresh env db then
      some (Tx.transaction (runSessionAnalysis (alone env) sessionId mode) db).2
    else none

/-! ### One analysis -/

/-- Where an analysis that runs alone stands before it resolves its thread. -/
def Unresolved (db : Database) (s : AsyncSession Database) : Prop :=
  s.usable = true ∧ s.committed = db ∧ s.tables = { db with summaries := s.tables.summaries }

theorem prepares_unresolved (env : Environment) (sessionId : Uuid) {db : Database}
    (hu : DistinctKeys db.threads) : Prepares (alone env) sessionId (Unresolved db) where
  usable _ h := h.1
  keys s h := by
    rw [h.2.2]
    exact hu
  load s _ summaries h _ := by
    refine ⟨h.1, h.2.1, ?_⟩
    rw [h.2.2]
  wait _ _ h := h

/-- An analysis either changes nothing or has stored a row in a resolved thread. -/
theorem analyse_cases (env : Environment) (sessionId : Uuid) (mode : AnalysisMode) {db : Database}
    (hu : DistinctKeys db.threads) :
    (Tx.transaction (runSessionAnalysis (alone env) sessionId mode) db).2 = db ∨
      ∃ summaries reresolve prepared after,
        Resolution sessionId (env.threadId reresolve) env.startedAt db.threads
          prepared.thread after ∧
        prepared.sessionId = sessionId ∧
        (Tx.transaction (runSessionAnalysis (alone env) sessionId mode) db).2 =
          stored (alone env) prepared.thread
            (buildSessionAnalysisRow db.analyses prepared env.analysisId env.startedAt)
            { db with summaries := summaries, threads := after } := by
  have hI := prepares_unresolved env sessionId hu
  have hopened : Unresolved db (.opened db) := ⟨rfl, rfl, rfl⟩
  rcases prepareSessionAnalysis_cases hI hopened mode with
    ⟨e, t, ht, he⟩ | ⟨t, reresolve, prepared, after, ⟨hs, hcommitted, htables⟩, hres, hid, hok⟩
  · have hrun : runSessionAnalysis (alone env) sessionId mode (.opened db) = (.error e, t) :=
      Tx.bind_error he
    refine .inl ?_
    rw [Tx.transaction_error hrun]
    exact ht.2.1
  · set u : AsyncSession Database := { t with tables := { t.tables with threads := after } } with hu
    set row := buildSessionAnalysisRow db.analyses prepared env.analysisId env.startedAt with hrow
    have hanalyses : t.tables.analyses = db.analyses := by rw [htables]
    have hrun : runSessionAnalysis (alone env) sessionId mode (.opened db) =
        persistSessionAnalysisInThread (alone env) prepared.thread row u := by
      refine (Tx.bind_ok hok).trans ((Tx.bind_ok (Tx.query_ok (by exact hs) _)).trans ?_)
      rw [hrow, ← hanalyses]
      rfl
    rcases hp : persistSessionAnalysisInThread (alone env) prepared.thread row u with ⟨e | a, v⟩
    · refine .inl ?_
      have hv : v.committed = u.committed := by
        have halone : Tx.Exposes (fun c c' => c' = c)
          (persistSessionAnalysisInThread (alone env) prepared.thread row) :=
          exposes_persist (alone env) _ _
        have hc := halone.committed u
        rwa [hp] at hc
      rw [Tx.transaction_error (hrun.trans hp), hv]
      exact hcommitted
    · refine .inr ⟨t.tables.summaries, reresolve, prepared, after, ?_, hid, ?_⟩
      · rw [htables] at hres
        exact hres
      · have hus : u.usable = true := hs
        rcases persist_cases (alone env) prepared.thread row hus with
          ⟨e, -, he⟩ | ⟨e, t', he, -⟩ | hstored
        · cases hp.symm.trans he
        · cases hp.symm.trans he
        · rw [Tx.transaction_ok (hrun.trans hstored) hus, hu, htables]

end System

/-! ### The threads and their analyses -/

def rowsOf (analyses : List SessionAnalysis) (threadId : Uuid) : List SessionAnalysis :=
  analyses.filter fun row => row.threadId = threadId

/-- The rows of a thread are numbered, and the last one alone is the latest, which is the one
that the thread names. -/
def Chained (rows : List SessionAnalysis) (last : Option Uuid) : Prop :=
  rows.map SessionAnalysis.continuationIndex = List.range rows.length ∧
    (rows = [] ∨ ∃ earlier row, rows = earlier ++ [row] ∧ (∀ r ∈ earlier, r.isLatest = false) ∧
      row.isLatest = true ∧ last = some row.id)

/-- What the tables of threads and analyses say. -/
structure History (db : Database) : Prop where
  oneActive : ∀ sessionId, (db.threads.filter (AnalysisThread.ActiveIn sessionId ·)).length ≤ 1
  latest : ∀ thread ∈ db.threads, (∃ row ∈ db.analyses, row.threadId = thread.id) →
    ∃ latest, db.analyses.filter (SessionAnalysis.LatestOf thread.id ·) = [latest] ∧
      thread.lastAnalysisId = some latest.id ∧
      ∀ row ∈ db.analyses, row.threadId = thread.id →
        row = latest ∨ row.continuationIndex < latest.continuationIndex
  owner : ∀ row ∈ db.analyses, ∃ thread ∈ db.threads,
    thread.id = row.threadId ∧ row.sessionId = thread.sessionId

structure Wf (db : Database) : Prop where
  unique : DistinctKeys db.threads
  oneActive : ∀ r ∈ db.threads, ∀ r' ∈ db.threads, r.status = .active → r'.status = .active →
    r.sessionId = r'.sessionId → r.id = r'.id
  chained : ∀ thread ∈ db.threads, Chained (rowsOf db.analyses thread.id) thread.lastAnalysisId
  owner : ∀ row ∈ db.analyses, ∃ thread ∈ db.threads,
    thread.id = row.threadId ∧ row.sessionId = thread.sessionId

section Chain

variable {rows : List SessionAnalysis} {last : Option Uuid} {row : SessionAnalysis}

/-- In a chain the latest row is the one with the largest index. -/
theorem Chained.latest (h : Chained rows last) (hne : rows ≠ []) :
    ∃ latest, rows.filter (·.isLatest) = [latest] ∧ last = some latest.id ∧
      ∀ row ∈ rows, row = latest ∨ row.continuationIndex < latest.continuationIndex := by
  obtain ⟨hindex, hlast⟩ := h
  obtain ⟨earlier, latest, rfl, hearlier, hlatest, hname⟩ := hlast.resolve_left hne
  rw [List.map_append, List.map_singleton, List.length_append, List.length_singleton,
    List.range_succ] at hindex
  obtain ⟨hbefore, hafter⟩ := List.append_inj hindex (by simp)
  refine ⟨latest, ?_, hname, fun row hr => ?_⟩
  · rw [List.filter_append, List.filter_eq_nil_iff.mpr (by simpa using hearlier)]
    simp [hlatest]
  · rcases List.mem_append.mp hr with hr | hr
    · have hm : row.continuationIndex ∈ List.range earlier.length :=
        hbefore ▸ List.mem_map_of_mem hr
      rw [List.mem_range] at hm
      rw [List.cons.injEq] at hafter
      exact .inr (by omega)
    · exact .inl (List.mem_singleton.mp hr)

/-- A new latest row at the end of a chain. -/
theorem Chained.append (h : Chained rows last) (hindex : row.continuationIndex = rows.length)
    (hlatest : row.isLatest = true) :
    Chained (rows.map SessionAnalysis.superseded ++ [row]) (some row.id) := by
  refine ⟨?_, .inr ⟨_, row, rfl, ?_, hlatest, rfl⟩⟩
  · have hmap : (rows.map SessionAnalysis.superseded).map SessionAnalysis.continuationIndex =
        rows.map SessionAnalysis.continuationIndex := by
      rw [List.map_map]
      rfl
    rw [List.map_append, hmap, h.1, List.map_singleton, hindex, List.length_append,
      List.length_map, List.length_singleton, List.range_succ]
  · simp [SessionAnalysis.superseded]

end Chain

section Invariant

variable {db : Database}

theorem Wf.history (h : Wf db) : History db where
  oneActive := by
    intro sessionId
    have hk : DistinctKeys (db.threads.filter (AnalysisThread.ActiveIn sessionId ·)) :=
      h.unique.sublist (List.filter_sublist.map _)
    have hmem : ∀ r ∈ db.threads.filter (AnalysisThread.ActiveIn sessionId ·),
        r ∈ db.threads ∧ r.ActiveIn sessionId := fun r hr => by simpa using hr
    match hl : db.threads.filter (AnalysisThread.ActiveIn sessionId ·) with
    | [] => exact Nat.zero_le 1
    | [_] => exact le_rfl
    | r :: r' :: rest =>
      rw [hl] at hk hmem
      obtain ⟨hr, ha⟩ := hmem r (by simp)
      obtain ⟨hr', ha'⟩ := hmem r' (by simp)
      have he := h.oneActive r hr r' hr' ha.2 ha'.2 (ha.1.trans ha'.1.symm)
      simp [DistinctKeys, he] at hk
  latest := by
    rintro thread ht ⟨row, hr, hrow⟩
    have hne : rowsOf db.analyses thread.id ≠ [] :=
      List.ne_nil_of_mem (List.mem_filter.mpr ⟨hr, by simpa using hrow⟩)
    obtain ⟨latest, hfilter, hname, hmax⟩ := (h.chained thread ht).latest hne
    refine ⟨latest, ?_, hname, fun row hr hrow => hmax row (List.mem_filter.mpr ⟨hr, by simpa using hrow⟩)⟩
    rw [← hfilter, rowsOf, List.filter_filter]
    refine List.filter_congr fun row _ => ?_
    simp [SessionAnalysis.LatestOf, and_comm]
  owner := h.owner

theorem wf_empty : Wf Database.empty := by
  refine ⟨distinctKeys_nil, ?_, ?_, ?_⟩ <;> simp [Database.empty]

end Invariant

/-! ### One resolved thread -/

section Resolved

variable {db : Database} {sessionId id : Uuid} {createdAt : Time} {thread : AnalysisThread}
  {after : List AnalysisThread}

theorem distinctKeys_after (h : Resolution sessionId id createdAt db.threads thread after)
    (hu : DistinctKeys db.threads) (hid : get db.threads id = none) : DistinctKeys after := by
  cases h with
  | continued => exact hu
  | created f hf =>
    refine distinctKeys_append_singleton ((distinctKeys_map fun r => (hf r).id).mpr hu) ?_
    rw [get_map fun r => (hf r).id]
    exact congrArg (Option.map f) hid

/-- A thread of the table was there before, or it is the new one. -/
theorem origin_after (h : Resolution sessionId id createdAt db.threads thread after)
    {r : AnalysisThread} (hr : r ∈ after) :
    (∃ r₀ ∈ db.threads, r₀.id = r.id ∧ r₀.sessionId = r.sessionId ∧
        r₀.lastAnalysisId = r.lastAnalysisId) ∨ r = thread ∧ r.id = id := by
  cases h with
  | continued => exact .inl ⟨r, hr, rfl, rfl, rfl⟩
  | created f hf =>
    rcases List.mem_append.mp hr with hr | hr
    · obtain ⟨r₀, hr₀, rfl⟩ := List.mem_map.mp hr
      obtain ⟨-, -, hi, hs, hl⟩ := hf r₀
      exact .inl ⟨r₀, hr₀, hi.symm, hs.symm, hl.symm⟩
    · obtain rfl := List.mem_singleton.mp hr
      exact .inr ⟨rfl, rfl⟩

/-- Every thread that was there before is kept. -/
theorem kept_after (h : Resolution sessionId id createdAt db.threads thread after)
    {r : AnalysisThread} (hr : r ∈ db.threads) :
    ∃ r' ∈ after, r'.id = r.id ∧ r'.sessionId = r.sessionId := by
  cases h with
  | continued => exact ⟨r, hr, rfl, rfl⟩
  | created f hf =>
    obtain ⟨-, -, hi, hs, -⟩ := hf r
    exact ⟨f r, List.mem_append_left _ (List.mem_map_of_mem hr), hi, hs⟩

theorem oneActive_after (h : Resolution sessionId id createdAt db.threads thread after) (hw : Wf db) :
    ∀ r ∈ after, ∀ r' ∈ after, r.status = .active → r'.status = .active →
      r.sessionId = r'.sessionId → r.id = r'.id := by
  cases h with
  | continued => exact hw.oneActive
  | created f hf =>
    intro r hr r' hr' ha ha' hs
    rcases List.mem_append.mp hr with hr | hr <;> rcases List.mem_append.mp hr' with hr' | hr'
    · obtain ⟨r₀, hr₀, rfl⟩ := List.mem_map.mp hr
      obtain ⟨r₁, hr₁, rfl⟩ := List.mem_map.mp hr'
      rw [(hf r₀).sessionId, (hf r₁).sessionId] at hs
      rw [(hf r₀).id, (hf r₁).id]
      exact hw.oneActive r₀ hr₀ r₁ hr₁ ((hf r₀).status ha) ((hf r₁).status ha') hs
    · obtain ⟨r₀, -, rfl⟩ := List.mem_map.mp hr
      obtain rfl := List.mem_singleton.mp hr'
      exact absurd ⟨hs, ha⟩ (hf r₀).inactive
    · obtain ⟨r₀, -, rfl⟩ := List.mem_map.mp hr'
      obtain rfl := List.mem_singleton.mp hr
      exact absurd ⟨hs.symm, ha'⟩ (hf r₀).inactive
    · obtain rfl := List.mem_singleton.mp hr
      obtain rfl := List.mem_singleton.mp hr'
      rfl

/-- A thread without analyses forms a chain. -/
theorem chained_after (h : Resolution sessionId id createdAt db.threads thread after) (hw : Wf db)
    (hid : get db.threads id = none) {r : AnalysisThread} (hr : r ∈ after) :
    Chained (rowsOf db.analyses r.id) r.lastAnalysisId := by
  rcases origin_after h hr with ⟨r₀, hr₀, hi, -, hl⟩ | ⟨-, hi⟩
  · rw [← hi, ← hl]
    exact hw.chained r₀ hr₀
  · have hnil : rowsOf db.analyses r.id = [] := by
      refine List.filter_eq_nil_iff.mpr fun row hrow => ?_
      obtain ⟨owner, hm, ho, -⟩ := hw.owner row hrow
      simp only [decide_eq_true_eq]
      intro he
      exact get_eq_none.mp hid (List.mem_map.mpr ⟨owner, hm, ho.trans (he.trans hi)⟩)
    rw [hnil]
    exact ⟨rfl, .inl rfl⟩

end Resolved

/-! ### One stored analysis -/

section Stored

variable {db : Database} {env : Environment} {thread : AnalysisThread} {row : SessionAnalysis}
  {after : List AnalysisThread} {summaries : List SessionSummary}

theorem analyses_stored (db' : Database) :
    (stored (alone env) thread row db').analyses =
      (db'.analyses.map fun row => if row.LatestOf thread.id then row.superseded else row) ++ [row] :=
  rfl

/-- The analyses of a thread after one is stored in `thread`. -/
theorem rowsOf_stored (hrow : row.threadId = thread.id) (db' : Database) (k : Uuid) :
    rowsOf (stored (alone env) thread row db').analyses k =
      if k = thread.id then (rowsOf db'.analyses k).map SessionAnalysis.superseded ++ [row]
      else rowsOf db'.analyses k := by
  have hmap : ((db'.analyses.map fun row => if row.LatestOf thread.id then row.superseded else row).filter
      fun row => row.threadId = k) =
      (rowsOf db'.analyses k).map fun row =>
        if row.LatestOf thread.id then row.superseded else row := by
    rw [List.filter_map, rowsOf]
    congr 1
    refine List.filter_congr fun row _ => ?_
    simp only [Function.comp_apply]
    split <;> rfl
  rw [rowsOf, analyses_stored, List.filter_append, hmap]
  split
  · next hk =>
    have hsingle : ([row].filter fun row => row.threadId = k) = [row] := by simp [hrow, hk]
    rw [hsingle]
    congr 1
    refine List.map_congr_left fun r hr => ?_
    have hthread : r.threadId = k := by simpa using (List.mem_filter.mp hr).2
    split
    · rfl
    · next hn =>
      have hl : r.isLatest = false := by simpa [SessionAnalysis.LatestOf, hthread, hk] using hn
      rw [SessionAnalysis.superseded, ← hl]
  · next hk =>
    have hsingle : ([row].filter fun row => row.threadId = k) = [] := by
      simpa [hrow] using fun he : thread.id = k => hk he.symm
    rw [hsingle, List.append_nil]
    refine (List.map_congr_left fun r hr => ?_).trans (List.map_id' _)
    have hthread : r.threadId = k := by simpa using (List.mem_filter.mp hr).2
    exact if_neg fun hl => hk (hthread.symm.trans hl.1)

theorem wf_stored {sessionId id : Uuid} {createdAt : Time} (hw : Wf db)
    (hres : Resolution sessionId id createdAt db.threads thread after)
    (hid : get db.threads id = none) (hrow : row.threadId = thread.id)
    (hsession : row.sessionId = thread.sessionId) (hlatest : row.isLatest = true)
    (hindex : row.continuationIndex = nextContinuationIndex db.analyses thread.id) :
    Wf (stored (alone env) thread row { db with summaries := summaries, threads := after }) := by
  have hkey : ∀ r : AnalysisThread, key (r.persisted row.id env.persistedAt) = key r := fun _ => rfl
  have hthreads : ∀ r ∈ modify after thread.id (.persisted row.id env.persistedAt),
      ∃ r₀ ∈ after, r.id = r₀.id ∧ r.sessionId = r₀.sessionId ∧ r.status = r₀.status ∧
        r.lastAnalysisId = if r₀.id = thread.id then some row.id else r₀.lastAnalysisId := by
    intro r hr
    rcases mem_modify hr with ⟨hr, hne⟩ | ⟨r₀, hr₀, he, rfl⟩
    · exact ⟨r, hr, rfl, rfl, rfl, (if_neg hne).symm⟩
    · exact ⟨r₀, hr₀, rfl, rfl, rfl, (if_pos he).symm⟩
  refine ⟨(distinctKeys_modify hkey).mpr (distinctKeys_after hres hw.unique hid), ?_, ?_, ?_⟩
  · intro r hr r' hr' ha ha' hs
    obtain ⟨r₀, hr₀, hi, hs₀, hst, -⟩ := hthreads r hr
    obtain ⟨r₁, hr₁, hi', hs₁, hst', -⟩ := hthreads r' hr'
    rw [hi, hi']
    exact oneActive_after hres hw r₀ hr₀ r₁ hr₁ (hst ▸ ha) (hst' ▸ ha') (hs₀ ▸ hs₁ ▸ hs)
  · intro r hr
    obtain ⟨r₀, hr₀, hi, -, -, hl⟩ := hthreads r hr
    have hc := chained_after hres hw hid hr₀
    rw [rowsOf_stored hrow, hi, hl]
    split
    · next hk =>
      refine hc.append ?_ hlatest
      rw [hindex, nextContinuationIndex, List.countP_eq_length_filter, hk]
      rfl
    · exact hc
  · intro r hr
    have hmem : ∀ r₀ ∈ after, ∃ r ∈ modify after thread.id (.persisted row.id env.persistedAt),
        r.id = r₀.id ∧ r.sessionId = r₀.sessionId := fun r₀ hr₀ => by
      refine ⟨_, List.mem_map_of_mem hr₀, ?_⟩
      split <;> exact ⟨rfl, rfl⟩
    rcases List.mem_append.mp hr with hr | hr
    · obtain ⟨r₀, hr₀, rfl⟩ := List.mem_map.mp hr
      obtain ⟨owner, hm, ho, hs⟩ := hw.owner r₀ hr₀
      obtain ⟨owner', hm', ho', hs'⟩ := kept_after hres hm
      obtain ⟨owner'', hm'', ho'', hs''⟩ := hmem owner' hm'
      refine ⟨owner'', hm'', ?_, ?_⟩
      · rw [ho'', ho', ho]
        split <;> rfl
      · rw [hs'', hs', ← hs]
        split <;> rfl
    · obtain rfl := List.mem_singleton.mp hr
      obtain ⟨owner, hm, ho, hs⟩ := hmem thread hres.activeIn.1
      exact ⟨owner, hm, ho.trans hrow.symm, hsession.trans hs.symm⟩

/-- Storing an analysis keeps the content of the earlier ones. -/
theorem content_stored (env : Environment) (thread : AnalysisThread) (row : SessionAnalysis)
    (db' : Database) :
    db'.analyses.map SessionAnalysis.content <+:
      (stored (alone env) thread row db').analyses.map SessionAnalysis.content := by
  have hmap : (db'.analyses.map fun row => if row.LatestOf thread.id then row.superseded else row).map
      SessionAnalysis.content = db'.analyses.map SessionAnalysis.content := by
    rw [List.map_map]
    refine List.map_congr_left fun row _ => ?_
    simp only [Function.comp_apply]
    split <;> rfl
  rw [analyses_stored, List.map_append, hmap]
  exact List.prefix_append _ _

end Stored

/-! ### Runs -/

section Runs

variable [CharTable] {db t : Database} {e : Event}

/-- What a call does to the content of the analyses: it adds to them at most. -/
def KeepsContent (db : Database) (_ : Event) (t : Database) : Prop :=
  db.analyses.map SessionAnalysis.content <+: t.analyses.map SessionAnalysis.content

theorem wf_step (hw : Wf db) (ht : step db e = some t) : Wf t ∧ KeepsContent db e t := by
  cases e with
  | createSession userId id now startedAt =>
    simp only [step, Option.ite_none_right_eq_some, Option.some.injEq] at ht
    obtain ⟨-, rfl⟩ := ht
    exact ⟨⟨hw.unique, hw.oneActive, hw.chained, hw.owner⟩, List.prefix_rfl⟩
  | closeSession | addDream =>
    simp only [step, Option.some.injEq] at ht
    subst ht
    exact ⟨⟨hw.unique, hw.oneActive, hw.chained, hw.owner⟩, List.prefix_rfl⟩
  | analyse env sessionId mode =>
    simp only [step, Option.ite_none_right_eq_some, Option.some.injEq] at ht
    obtain ⟨⟨hthreads, -⟩, rfl⟩ := ht
    rcases analyse_cases env sessionId mode hw.unique with
      he | ⟨summaries, reresolve, prepared, after, hres, hid, he⟩ <;> rw [he]
    · exact ⟨hw, List.prefix_rfl⟩
    · refine ⟨wf_stored hw hres (hthreads reresolve) rfl ?_ rfl rfl, content_stored env _ _
        { db with summaries := summaries, threads := after }⟩
      exact hid.trans hres.activeIn.2.1.symm

/-- The history of the threads, in every state of every run from an empty database. -/
theorem thread_history (es : List Event) :
    Always step History Database.empty es ∧ AlwaysStep step KeepsContent Database.empty es :=
  ⟨(always_of_step (fun _ _ _ hw ht => (wf_step hw ht).1) wf_empty es).mono fun _ hw => hw.history,
    alwaysStep_of_step (Q := KeepsContent) (fun _ _ _ hw ht => wf_step hw ht) wf_empty es⟩

end Runs

/-! ### Example -/

local instance table : CharTable := ⟨Char.isAlphanum⟩

def request (n : ℕ) : Environment where
  llmMaxAttempts := 1
  getProvider := .ok ⟨fun _ _ _ _ => .ok ⟨"\x7b\x7d", "mock", "mock-v1"⟩⟩
  renderCompiledPrompt := fun _ => ""
  parseResponse := .ok
  validateAnalysisOutput := .ok
  buildMemoryPrompt := fun _ _ => ""
  validateMemory := fun _ => .error "dream_details"
  lower := fun s => s
  conflict := fun _ => none
  meanwhile := fun _ db => db
  summaryId := n
  threadId := fun _ => n
  analysisId := n
  memoryId := n
  startedAt := seconds n
  resolvedAt := seconds n
  persistedAt := seconds n
  finishedAt := seconds n

/-- Two analyses in one thread, and one for which a new thread is asked. -/
example : (run step Database.empty [.createSession 3 7 0 0, .analyse (request 11) 7 .auto,
    .analyse (request 12) 7 .auto, .analyse (request 13) 7 .new]).map (fun db =>
      db.analyses.map fun row => (row.threadId, row.continuationIndex, row.isLatest)) =
    some [(11, 0, false), (11, 1, true), (13, 0, true)] := by
  decide

end LiberNovus.Analysis.ThreadHistory

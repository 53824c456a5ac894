import LiberNovus.Analysis.Model

/-! The statements of `build_session_analysis_row` followed by
`persist_session_analysis_in_thread`, as one transaction `a` issues them next to
others under READ COMMITTED: the `COUNT` that gives the continuation index, the
`UPDATE` that clears the latest flag, the `INSERT`, and the `UPDATE` of the thread
row. `Effect` says once what a statement can do, and `Holds` what the statements
keep of the table of analyses. -/

namespace LiberNovus.Analysis

open Rows ReadCommitted

/-- The two tables an analysis transaction writes. -/
structure Tables (τ : Type*) where
  threads : Table τ Uuid Uuid AnalysisThread
  analyses : Table τ Uuid Uuid SessionAnalysis

/-- The rows `_clear_latest_for_thread` matches in the snapshot of its statement. -/
def latestKeys (analyses : List SessionAnalysis) (threadId : Uuid) : List Uuid :=
  (analyses.filter (SessionAnalysis.LatestOf threadId ·)).map SessionAnalysis.id

/-- The write of `_clear_latest_for_thread`. -/
def clearLatest {τ : Type*} [DecidableEq τ] (T : Table τ Uuid Uuid SessionAnalysis) (a : τ)
    (threadId : Uuid) (latest : List Uuid) : Table τ Uuid Uuid SessionAnalysis :=
  T.writeAll a latest (SessionAnalysis.LatestOf threadId) SessionAnalysis.superseded

/-- The last `UPDATE` of `persist_session_analysis_in_thread`. -/
def touchThread {τ : Type*} [DecidableEq τ] (T : Table τ Uuid Uuid AnalysisThread) (a : τ)
    (threadId analysisId : Uuid) (now : Time) : Table τ Uuid Uuid AnalysisThread :=
  T.write a threadId (AnalysisThread.persisted analysisId now)

/-- How far a transaction has got; the row is the assembled one. `refused` is a
`ValueError` of the target check, `failed` an integrity error, after which the
transaction can only be rolled back. -/
inductive Phase where
  | building
  | assembled (analysis : SessionAnalysis)
  | clearing (analysis : SessionAnalysis) (latest : List Uuid)
  | cleared (analysis : SessionAnalysis)
  | inserted (analysis : SessionAnalysis)
  | persisted (analysis : SessionAnalysis)
  | refused
  | failed
  deriving DecidableEq

/-- The assembled row, once the `COUNT` is done. -/
def Phase.row : Phase → Option SessionAnalysis
  | .assembled analysis => some analysis
  | .clearing analysis _ => some analysis
  | .cleared analysis => some analysis
  | .inserted analysis => some analysis
  | .persisted analysis => some analysis
  | _ => none

/-- The row, once it is in the table. -/
def Phase.stored : Phase → Option SessionAnalysis
  | .inserted analysis => some analysis
  | .persisted analysis => some analysis
  | _ => none

theorem Phase.row_of_stored {p : Phase} {analysis : SessionAnalysis}
    (h : p.stored = some analysis) : p.row = some analysis := by
  cases p <;> simp_all [Phase.stored, Phase.row]

/-- A transaction that assembles and persists `prepared`, bound to `jobId` when the
runtime executes it. -/
structure Persist where
  prepared : SessionAnalysisPrepareResult
  jobId : Option Uuid
  startedAt : Time
  phase : Phase
  deriving DecidableEq

namespace Persist

/-- `build_session_analysis_row`, then `with_job_id`. -/
def assemble (x : Persist) (analyses : List SessionAnalysis) (id : Uuid) : SessionAnalysis :=
  { buildSessionAnalysisRow analyses x.prepared id x.startedAt with analysisJobId := x.jobId }

def advance (x : Persist) (p : Phase) : Persist := { x with phase := p }

variable {τ : Type*} [DecidableEq τ]

/-- The next statement of transaction `a`. `id` is the `uuid4` of a new row and
`now` the clock. -/
def step (db : Tables τ) (a : τ) (id : Uuid) (now : Time) (x : Persist) :
    Option (Tables τ × Persist) :=
  match x.phase with
  | .building => some (db, x.advance (.assembled (x.assemble (db.analyses.view a) id)))
  | .assembled analysis =>
    if analysis.threadId ≠ x.prepared.thread.id ∨
        analysis.sessionId ≠ x.prepared.thread.sessionId then
      some (db, x.advance .refused)
    else
      let latest := latestKeys (db.analyses.view a) x.prepared.thread.id
      some (db, x.advance (.clearing analysis latest))
  | .clearing analysis latest =>
    if ∀ k ∈ latest, db.analyses.Free a k then
      some ({ db with analyses := clearLatest db.analyses a x.prepared.thread.id latest },
        x.advance (.cleared analysis))
    else none
  | .cleared analysis =>
    if db.analyses.Blocked a analysis then none
    else if db.analyses.Conflicts a analysis then some (db, x.advance .failed)
    else some ({ db with analyses := db.analyses.insert a analysis },
      x.advance (.inserted analysis))
  | .inserted analysis =>
    if db.threads.Free a x.prepared.thread.id then
      some ({ db with threads := touchThread db.threads a x.prepared.thread.id analysis.id now },
        x.advance (.persisted analysis))
    else none
  | .persisted _ => none
  | .refused => none
  | .failed => none

variable {db db' : Tables τ} {a : τ} {id : Uuid} {now : Time} {x x' : Persist}

inductive Effect (db : Tables τ) (a : τ) (id : Uuid) (now : Time) (x : Persist) :
    Tables τ → Persist → Prop
  | assemble (hp : x.phase = .building) :
      Effect db a id now x db (x.advance (.assembled (x.assemble (db.analyses.view a) id)))
  | read (p : Phase) (hr : ∀ analysis, p.row = some analysis → x.phase.row = some analysis)
      (hs : p.stored = x.phase.stored) (hp : p ≠ .building) :
      Effect db a id now x db (x.advance p)
  | clear (analysis : SessionAnalysis) (latest : List Uuid)
      (hp : x.phase = .clearing analysis latest) (hfree : ∀ k ∈ latest, db.analyses.Free a k) :
      Effect db a id now x
        { db with analyses := clearLatest db.analyses a x.prepared.thread.id latest }
        (x.advance (.cleared analysis))
  | insert (analysis : SessionAnalysis) (hp : x.phase = .cleared analysis)
      (hb : ¬ db.analyses.Blocked a analysis) (hc : ¬ db.analyses.Conflicts a analysis) :
      Effect db a id now x { db with analyses := db.analyses.insert a analysis }
        (x.advance (.inserted analysis))
  | touch (analysis : SessionAnalysis) (hp : x.phase = .inserted analysis)
      (hfree : db.threads.Free a x.prepared.thread.id) :
      Effect db a id now x
        { db with threads := touchThread db.threads a x.prepared.thread.id analysis.id now }
        (x.advance (.persisted analysis))

theorem effect_of_step (h : x.step db a id now = some (db', x')) :
    Effect db a id now x db' x' := by
  unfold step at h
  split at h
  · next hp => cases h; exact .assemble hp
  · next analysis hp =>
    split at h <;> cases h
    · exact .read .refused (by simp [Phase.row]) (by simp [hp, Phase.stored]) (by simp)
    · exact .read (.clearing _ _) (by simp [hp, Phase.row]) (by simp [hp, Phase.stored]) (by simp)
  · next analysis latest hp =>
    split at h <;> cases h
    next hfree => exact .clear analysis latest hp hfree
  · next analysis hp =>
    split at h
    · cases h
    · next hb =>
      split at h <;> cases h
      · exact .read .failed (by simp [Phase.row]) (by simp [hp, Phase.stored]) (by simp)
      · next hc => exact .insert analysis hp hb hc
  · next analysis hp =>
    split at h <;> cases h
    next hfree => exact .touch analysis hp hfree
  all_goals cases h

theorem Effect.prepared (h : Effect db a id now x db' x') : x'.prepared = x.prepared := by
  cases h <;> rfl

theorem Effect.jobId (h : Effect db a id now x db' x') : x'.jobId = x.jobId := by
  cases h <;> rfl

/-- The `COUNT` is the first statement and runs once. -/
theorem Effect.counted (h : Effect db a id now x db' x') : x'.phase ≠ .building := by
  cases h with
  | read p _ _ hp => exact hp
  | _ => simp [advance]

/-- No statement of an open transaction changes a committed analysis. -/
theorem Effect.committed (h : Effect db a id now x db' x') :
    db'.analyses.committed = db.analyses.committed := by
  cases h <;> simp [clearLatest]

theorem Effect.committed_threads (h : Effect db a id now x db' x') :
    db'.threads.committed = db.threads.committed := by
  cases h <;> simp [touchThread]

/-- The assembled row is fixed by the `COUNT`; later statements only carry it along. -/
theorem Effect.row (h : Effect db a id now x db' x') {analysis : SessionAnalysis}
    (hr : x'.phase.row = some analysis) :
    x.phase.row = some analysis ∨
      x.phase = .building ∧ analysis = x.assemble (db.analyses.view a) id := by
  cases h with
  | assemble hp => exact .inr ⟨hp, (Option.some.inj hr).symm⟩
  | read p hr' _ _ => exact .inl (hr' _ hr)
  | clear _ _ hp => exact .inl (by rw [hp]; exact hr)
  | insert _ hp => exact .inl (by rw [hp]; exact hr)
  | touch _ hp => exact .inl (by rw [hp]; exact hr)

end Persist

/-! ### The table of analyses -/

/-- The row apart from its latest flag, the only column an `UPDATE` changes. -/
def SessionAnalysis.content (analysis : SessionAnalysis) : SessionAnalysis :=
  { analysis with isLatest := true }

def SessionAnalysis.SameContent (c r : SessionAnalysis) : Prop := r.content = c.content

theorem SessionAnalysis.SameContent.place {c r : SessionAnalysis} (h : c.SameContent r) :
    r.place = c.place :=
  (congrArg SessionAnalysis.place (show r.content = c.content from h) :)

theorem SessionAnalysis.SameContent.analysisJobId {c r : SessionAnalysis} (h : c.SameContent r) :
    r.analysisJobId = c.analysisJobId :=
  (congrArg SessionAnalysis.analysisJobId (show r.content = c.content from h) :)

section Holds

variable {τ : Type*} [DecidableEq τ]

/-- The uncommitted work on the analyses consists of cleared flags and of the row
each transaction has stored. -/
structure Holds (T : Table τ Uuid Uuid SessionAnalysis) (stored : τ → Option SessionAnalysis) :
    Prop where
  consistent : T.Consistent
  content : T.Evolves fun _ => SessionAnalysis.SameContent
  inserts : ∀ a, T.inserts a = (stored a).toList

omit [DecidableEq τ] in
theorem holds_ofRows {rows : List SessionAnalysis} (h : DistinctKeys rows) :
    Holds (Table.ofRows rows : Table τ Uuid Uuid SessionAnalysis) fun _ => none :=
  ⟨Table.consistent_ofRows h, Table.evolves_ofRows rows, fun _ => rfl⟩

namespace Holds

variable {T : Table τ Uuid Uuid SessionAnalysis} {stored : τ → Option SessionAnalysis} {a : τ}

omit [DecidableEq τ] in
/-- What transaction `a` sees of a property that no `UPDATE` changes. -/
theorem view_map (h : Holds T stored) {β : Type*} {g : SessionAnalysis → β}
    (hg : ∀ c r : SessionAnalysis, c.SameContent r → g r = g c) (a : τ) :
    (T.view a).map g = T.committed.map g ++ (stored a).toList.map g := by
  rw [h.content.view_map hg h.consistent, h.inserts]

theorem finish_inserts (h : Holds T stored) (b : τ) :
    (T.rollback a).inserts b = (Function.update stored a none b).toList := by
  by_cases hb : b = a
  · subst hb; simp [Table.rollback]
  · simp [Table.rollback, hb, h.inserts]

theorem rollback (h : Holds T stored) (a : τ) :
    Holds (T.rollback a) (Function.update stored a none) :=
  ⟨h.consistent.rollback a, h.content.rollback a, h.finish_inserts⟩

theorem commit (h : Holds T stored) (a : τ) :
    Holds (T.commit a) (Function.update stored a none) :=
  ⟨h.consistent.commit a, h.content.commit h.consistent a, h.finish_inserts⟩

theorem clearLatest (h : Holds T stored) (hs : stored a = none) {latest : List Uuid}
    (hfree : ∀ k ∈ latest, T.Free a k) (threadId : Uuid) :
    Holds (clearLatest T a threadId latest) stored := by
  have hnil : T.inserts a = [] := by rw [h.inserts, hs]; rfl
  refine ⟨h.consistent.writeAll (fun _ => rfl) hfree, ?_, fun b => ?_⟩
  · exact h.content.writeAll h.consistent (fun _ => rfl) (fun _ => rfl) (fun _ _ _ hR => hR) hfree
  · by_cases hb : b = a
    · subst hb
      rw [Analysis.clearLatest, Table.writeAll_inserts_of_nil hnil, hs]
      rfl
    · rw [Analysis.clearLatest, Table.writeAll_inserts_of_ne hb, h.inserts]

theorem insert (h : Holds T stored) (hs : stored a = none) {analysis : SessionAnalysis}
    (hb : ¬ T.Blocked a analysis) (hc : ¬ T.Conflicts a analysis) :
    Holds (T.insert a analysis) (Function.update stored a (some analysis)) := by
  refine ⟨h.consistent.insert hb hc, h.content.insert, fun b => ?_⟩
  by_cases hba : b = a
  · subst hba
    simp [Table.insert, h.inserts, hs]
  · rw [Table.insert_inserts_of_ne hba, Function.update_of_ne hba, h.inserts]

/-- Every statement keeps the table of analyses in order. -/
theorem effect {db db' : Tables τ} {id : Uuid} {now : Time} {x x' : Persist}
    (h : Holds db.analyses stored) (hs : stored a = x.phase.stored)
    (he : x.Effect db a id now db' x') :
    Holds db'.analyses (Function.update stored a x'.phase.stored) := by
  cases he with
  | assemble hp =>
    rw [Function.update_eq_self_iff.mpr (by rw [hs, hp]; rfl)]
    exact h
  | read p _ hs' _ =>
    rw [Function.update_eq_self_iff.mpr (by rw [hs]; exact hs')]
    exact h
  | clear analysis latest hp hfree =>
    have hn : stored a = none := by rw [hs, hp]; rfl
    rw [Function.update_eq_self_iff.mpr hn.symm]
    exact h.clearLatest hn hfree _
  | insert analysis hp hb hc => exact h.insert (by rw [hs, hp]; rfl) hb hc
  | touch analysis hp =>
    rw [Function.update_eq_self_iff.mpr (by rw [hs, hp]; rfl)]
    exact h

end Holds

end Holds

end LiberNovus.Analysis

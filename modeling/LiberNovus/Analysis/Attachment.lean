import LiberNovus.Analysis.Model
import LiberNovus.Database
import LiberNovus.Foundation.Ordering

/-! `attach_analysis`: an analysis is moved to another thread and made the latest one there.

Proved: from well-formed threads, both the thread it goes to and the one it comes from are well
formed again exactly when the analysis stays where it is, or the threads are of one session and
it was alone in its thread, or was the last but not the latest and has the next index of the
other. -/

namespace LiberNovus.Analysis

open Rows ReadCommitted

/-- What `attach_analysis` raises. -/
inductive AttachError where
  | value (message : String)
  | integrity
  deriving DecidableEq, Repr

def clearLatestForThread (analyses : List SessionAnalysis) (threadId : Uuid) :
    List SessionAnalysis :=
  analyses.map fun row => if row.LatestOf threadId then row.superseded else row

/-- The row as it is attached; it gets a new index only if its own is zero. -/
def SessionAnalysis.attachedTo (analysis : SessionAnalysis) (analyses : List SessionAnalysis)
    (threadId : Uuid) : SessionAnalysis :=
  { analysis with
    continuationIndex :=
      if analysis.continuationIndex = 0 ∧ analysis.threadId ≠ threadId then
        nextContinuationIndex analyses threadId
      else analysis.continuationIndex
    threadId := threadId
    isLatest := true }

/-- `attach_analysis` with its flush; `now` is the clock. An exception leaves the tables as they
were. -/
def attachAnalysis (db : Database) (threadId analysisId : Uuid) (now : Time) :
    Except AttachError (SessionAnalysis × Database) :=
  match get db.analyses analysisId with
  | none => .error (.value s!"Analysis {analysisId} not found")
  | some analysis =>
    match get db.threads threadId with
    | none => .error (.value s!"Thread {threadId} not found")
    | some _ =>
      let cleared := clearLatestForThread db.analyses threadId
      let attached := analysis.attachedTo cleared threadId
      if Violates (delete cleared analysisId) attached then .error .integrity
      else .ok (attached,
        { db with
          analyses := modify cleared analysisId fun _ => attached
          threads := modify db.threads threadId (AnalysisThread.persisted analysisId now) })

/-! ### Well-formed threads -/

/-- The analyses of a thread that is not empty are numbered, one of them is the latest, which is
the one that the thread names, and all are of the session of the thread. -/
structure WellFormed (analyses : List SessionAnalysis) (thread : AnalysisThread) : Prop where
  numbered : (indices analyses thread.id).Perm (List.range (nextContinuationIndex analyses thread.id))
  latest : (∃ row ∈ analyses, row.threadId = thread.id) →
    ∃ latest, analyses.filter (SessionAnalysis.LatestOf thread.id ·) = [latest] ∧
      thread.lastAnalysisId = some latest.id
  owner : ∀ row ∈ analyses, row.threadId = thread.id → row.sessionId = thread.sessionId

/-- What the database says of its threads. -/
structure ThreadsWellFormed (db : Database) : Prop where
  threads : DistinctKeys db.threads
  analyses : DistinctKeys db.analyses
  wellFormed : ∀ thread ∈ db.threads, WellFormed db.analyses thread

/-- The analysis can be attached: it stays in its thread, or nothing that the source thread needs
is taken from it and the target thread goes on with the index. -/
def Attachable (analyses : List SessionAnalysis) (target source : AnalysisThread)
    (analysis : SessionAnalysis) : Prop :=
  source.id = target.id ∨ source.sessionId = target.sessionId ∧
    (nextContinuationIndex analyses source.id = 1 ∨
      analysis.isLatest = false ∧
        analysis.continuationIndex + 1 = nextContinuationIndex analyses source.id ∧
        analysis.continuationIndex = nextContinuationIndex analyses target.id)

/-- The threads of that number are well formed. -/
def WellFormedAt (db : Database) (threadId : Uuid) : Prop :=
  ∀ thread ∈ db.threads, thread.id = threadId → WellFormed db.analyses thread

section Rows

variable {analyses analyses' : List SessionAnalysis} {thread : AnalysisThread} {threadId : Uuid}

theorem indices_perm (h : analyses.Perm analyses') (threadId : Uuid) :
    (indices analyses threadId).Perm (indices analyses' threadId) := (h.filter _).map _

theorem nextContinuationIndex_perm (h : analyses.Perm analyses') (threadId : Uuid) :
    nextContinuationIndex analyses threadId = nextContinuationIndex analyses' threadId := h.countP_eq _

/-- The order of the rows does not matter. -/
theorem WellFormed.of_perm (hw : WellFormed analyses thread) (h : analyses.Perm analyses') :
    WellFormed analyses' thread where
  numbered := by
    rw [← nextContinuationIndex_perm h]
    exact (indices_perm h _).symm.trans hw.numbered
  latest := by
    rintro ⟨row, hr, ht⟩
    obtain ⟨latest, hl, hn⟩ := hw.latest ⟨row, h.mem_iff.mpr hr, ht⟩
    exact ⟨latest, List.perm_singleton.mp (hl ▸ (h.filter _).symm), hn⟩
  owner row hr := hw.owner row (h.mem_iff.mpr hr)

theorem wellFormed_perm (h : analyses.Perm analyses') :
    WellFormed analyses thread ↔ WellFormed analyses' thread :=
  ⟨fun hw => hw.of_perm h, fun hw => hw.of_perm h.symm⟩

theorem indices_cons (row : SessionAnalysis) (rows : List SessionAnalysis) (threadId : Uuid) :
    indices (row :: rows) threadId = if row.threadId = threadId then
      row.continuationIndex :: indices rows threadId else indices rows threadId := by
  unfold indices
  split <;> simp_all

theorem nextContinuationIndex_cons (row : SessionAnalysis) (rows : List SessionAnalysis)
    (threadId : Uuid) : nextContinuationIndex (row :: rows) threadId =
      nextContinuationIndex rows threadId + if row.threadId = threadId then 1 else 0 := by
  simp [nextContinuationIndex, List.countP_cons]

/-! ### Clearing the latest flag -/

theorem place_cleared (row : SessionAnalysis) (threadId : Uuid) :
    (if row.LatestOf threadId then row.superseded else row).place = row.place := by
  split <;> rfl

theorem indices_cleared (rows : List SessionAnalysis) (threadId t : Uuid) :
    indices (clearLatestForThread rows t) threadId = indices rows threadId := by
  rw [indices_eq_place, indices_eq_place, clearLatestForThread, List.map_map]
  congr 2
  exact List.map_congr_left fun row _ => place_cleared row t

theorem nextContinuationIndex_cleared (rows : List SessionAnalysis) (threadId t : Uuid) :
    nextContinuationIndex (clearLatestForThread rows t) threadId =
      nextContinuationIndex rows threadId := by
  rw [← length_indices, ← length_indices, indices_cleared]

theorem attachedTo_cleared (analysis : SessionAnalysis) (rows : List SessionAnalysis) (t : Uuid) :
    analysis.attachedTo (clearLatestForThread rows t) t = analysis.attachedTo rows t := by
  rw [SessionAnalysis.attachedTo, nextContinuationIndex_cleared, SessionAnalysis.attachedTo]

theorem mem_cleared {row : SessionAnalysis} {t : Uuid}
    (h : row ∈ clearLatestForThread analyses t) : ∃ r ∈ analyses, row.id = r.id ∧
      row.threadId = r.threadId ∧ row.sessionId = r.sessionId ∧ ¬ row.LatestOf t := by
  obtain ⟨r, hr, rfl⟩ := List.mem_map.mp h
  refine ⟨r, hr, ?_⟩
  split
  · exact ⟨rfl, rfl, rfl, fun hl => Bool.false_ne_true hl.2⟩
  · next hn => exact ⟨rfl, rfl, rfl, hn⟩

/-- No row of the cleared thread is the latest. -/
theorem latest_cleared (rows : List SessionAnalysis) (t : Uuid) :
    (clearLatestForThread rows t).filter (SessionAnalysis.LatestOf t ·) = [] := by
  rw [List.filter_eq_nil_iff]
  intro row hr
  obtain ⟨-, -, -, -, -, hn⟩ := mem_cleared hr
  simpa using hn

/-- The latest rows of the other threads stay what they are. -/
theorem latest_cleared_of_ne (rows : List SessionAnalysis) {threadId t : Uuid} (h : threadId ≠ t) :
    (clearLatestForThread rows t).filter (SessionAnalysis.LatestOf threadId ·) =
      rows.filter (SessionAnalysis.LatestOf threadId ·) := by
  induction rows with
  | nil => rfl
  | cons row rows ih =>
    rw [clearLatestForThread, List.map_cons, List.filter_cons, List.filter_cons]
    rw [clearLatestForThread] at ih
    by_cases hl : row.LatestOf t
    · have hne : ¬ row.LatestOf threadId := fun h' => h (h'.1.symm.trans hl.1)
      have hne' : ¬ row.superseded.LatestOf threadId := fun h' => Bool.false_ne_true h'.2
      simp [hl, hne, hne', ih]
    · simp [hl, ih]

end Rows

/-! ### The thread it goes to -/

section Attach

variable {others : List SessionAnalysis} {analysis attached : SessionAnalysis}
  {target source : AnalysisThread} {now : Time}

/-- What is left to check of the target thread, once the analysis is in it. -/
theorem wellFormed_target (ht : attached.threadId = target.id) (hl : attached.isLatest = true) :
    WellFormed (attached :: clearLatestForThread others target.id) (target.persisted attached.id now) ↔
      (attached.continuationIndex :: indices others target.id).Perm
        (List.range (nextContinuationIndex others target.id + 1)) ∧
      attached.sessionId = target.sessionId ∧
      ∀ row ∈ others, row.threadId = target.id → row.sessionId = target.sessionId := by
  have hid : (target.persisted attached.id now).id = target.id := rfl
  have hsession : (target.persisted attached.id now).sessionId = target.sessionId := rfl
  constructor
  · rintro ⟨hnumbered, -, howner⟩
    rw [hid, indices_cons, if_pos ht, indices_cleared, nextContinuationIndex_cons, if_pos ht,
      nextContinuationIndex_cleared] at hnumbered
    refine ⟨hnumbered, howner _ List.mem_cons_self ht, fun row hr hrow => ?_⟩
    have hmem : (if row.LatestOf target.id then row.superseded else row) ∈
        clearLatestForThread others target.id := List.mem_map_of_mem hr
    have hplace := congrArg Prod.fst (place_cleared row target.id)
    have hs := howner _ (List.mem_cons_of_mem _ hmem) (hplace.trans hrow)
    split at hs <;> exact hs
  · rintro ⟨hnumbered, howner, hothers⟩
    refine ⟨?_, fun _ => ⟨attached, ?_, rfl⟩, ?_⟩
    · rw [hid, indices_cons, if_pos ht, indices_cleared, nextContinuationIndex_cons, if_pos ht,
        nextContinuationIndex_cleared]
      exact hnumbered
    · rw [hid, List.filter_cons_of_pos (by simpa using ⟨ht, hl⟩), latest_cleared]
    · intro row hr hrow
      rcases List.mem_cons.mp hr with rfl | hr
      · exact howner
      · obtain ⟨r, hr, -, hthread, hs, -⟩ := mem_cleared hr
        exact hs.trans (hothers r hr (hthread.symm.trans hrow))

/-! ### The thread it comes from -/

/-- The source thread has to be left empty, or to lose its last analysis but not its latest. -/
theorem wellFormed_source (hw : WellFormed (analysis :: others) source)
    (hs : analysis.threadId = source.id) (ht : attached.threadId = target.id)
    (hne : source.id ≠ target.id) :
    WellFormed (attached :: clearLatestForThread others target.id) source ↔
      nextContinuationIndex others source.id = 0 ∨ analysis.isLatest = false ∧
        analysis.continuationIndex = nextContinuationIndex others source.id := by
  have hnumbered := hw.numbered
  rw [indices_cons, if_pos hs, nextContinuationIndex_cons, if_pos hs] at hnumbered
  have hlast := Ordering.perm_range_of_succ ((List.perm_append_singleton _ _).trans hnumbered)
  have hout : attached.threadId ≠ source.id := fun h => hne (h.symm.trans ht)
  have hrows : (∃ row ∈ attached :: clearLatestForThread others target.id, row.threadId = source.id) ↔
      nextContinuationIndex others source.id ≠ 0 := by
    rw [← nextContinuationIndex_cleared others source.id target.id, Ne, nextContinuationIndex,
      List.countP_eq_zero]
    simp [hout]
  have hfilter : (attached :: clearLatestForThread others target.id).filter
      (SessionAnalysis.LatestOf source.id ·) = others.filter (SessionAnalysis.LatestOf source.id ·) := by
    rw [List.filter_cons_of_neg (by simpa using fun h : attached.LatestOf source.id => hout h.1),
      latest_cleared_of_ne _ hne]
  obtain ⟨latest, hlatest, hname⟩ := hw.latest ⟨analysis, List.mem_cons_self, hs⟩
  have hwf : WellFormed (attached :: clearLatestForThread others target.id) source ↔
      analysis.continuationIndex = nextContinuationIndex others source.id ∧
        (nextContinuationIndex others source.id ≠ 0 → analysis.isLatest = false) := by
    constructor
    · rintro ⟨hn, hl, -⟩
      rw [indices_cons, if_neg hout, indices_cleared, nextContinuationIndex_cons, if_neg hout,
        nextContinuationIndex_cleared, Nat.add_zero] at hn
      refine ⟨hlast.mp hn, fun hrest => ?_⟩
      obtain ⟨latest', hlatest', -⟩ := hl (hrows.mpr hrest)
      rw [hfilter] at hlatest'
      by_contra htrue
      rw [Bool.not_eq_false] at htrue
      rw [List.filter_cons_of_pos (by simpa using ⟨hs, htrue⟩), hlatest'] at hlatest
      simp at hlatest
    · rintro ⟨hindex, hrest⟩
      refine ⟨?_, fun hex => ⟨latest, ?_, hname⟩, fun row hr hrow => ?_⟩
      · rw [indices_cons, if_neg hout, indices_cleared, nextContinuationIndex_cons, if_neg hout,
          nextContinuationIndex_cleared, Nat.add_zero]
        exact hlast.mpr hindex
      · have hfalse := hrest (hrows.mp hex)
        rw [hfilter, ← hlatest, List.filter_cons_of_neg]
        simp [SessionAnalysis.LatestOf, hfalse]
      · rcases List.mem_cons.mp hr with rfl | hr
        · exact absurd hrow hout
        · obtain ⟨r, hr, -, hthread, hsession, -⟩ := mem_cleared hr
          exact hsession.trans (hw.owner r (List.mem_cons_of_mem _ hr) (hthread.symm.trans hrow))
  have hzero : nextContinuationIndex others source.id = 0 → analysis.continuationIndex = 0 := by
    intro h
    have hnil : indices others source.id = [] := by
      rw [← List.length_eq_zero_iff, length_indices, h]
    rw [h, hnil] at hnumbered
    simpa using hnumbered
  rw [hwf]
  by_cases h : nextContinuationIndex others source.id = 0
  · simp [h, hzero h]
  · simp [h, and_comm]

end Attach

/-! ### The move -/

section Move

variable {db : Database} {target source : AnalysisThread} {analysis : SessionAnalysis} {now : Time}

/-- No other row of the thread is the latest at the flush, so it succeeds. -/
theorem attachAnalysis_ok (hw : ThreadsWellFormed db) (ht : target ∈ db.threads)
    (ha : analysis ∈ db.analyses) (now : Time) :
    ∃ after, attachAnalysis db target.id analysis.id now =
        .ok (analysis.attachedTo db.analyses target.id, after) ∧
      after.threads = modify db.threads target.id (AnalysisThread.persisted analysis.id now) ∧
      after.analyses.Perm (analysis.attachedTo db.analyses target.id ::
        clearLatestForThread (delete db.analyses analysis.id) target.id) := by
  have hkey : ∀ row : SessionAnalysis,
      key (if row.LatestOf target.id then row.superseded else row) = key row := by
    intro row
    split <;> rfl
  have hcleared : DistinctKeys (clearLatestForThread db.analyses target.id) :=
    (distinctKeys_map hkey).mpr hw.analyses
  have hget : get db.analyses analysis.id = some analysis := get_of_mem hw.analyses ha
  have hthread : get db.threads target.id = some target := get_of_mem hw.threads ht
  have hrow : ∃ row, get (clearLatestForThread db.analyses target.id) analysis.id = some row :=
    ⟨_, (get_map hkey _ _).trans (congrArg _ hget)⟩
  have hdelete : delete (clearLatestForThread db.analyses target.id) analysis.id =
      clearLatestForThread (delete db.analyses analysis.id) target.id := delete_map hkey _ _
  have hflush : ¬ Violates (delete (clearLatestForThread db.analyses target.id) analysis.id)
      (analysis.attachedTo db.analyses target.id) := by
    rintro ⟨row, hr, hk | ⟨-, hslot⟩⟩
    · have hk : row.id = analysis.id := hk
      exact absurd hk (by simpa using (List.mem_filter.mp hr).2)
    · obtain ⟨-, -, -, -, -, hn⟩ := mem_cleared (List.mem_of_mem_filter hr)
      simp only [slot, SessionAnalysis.attachedTo, if_true, Option.ite_none_right_eq_some,
        Option.some.injEq] at hslot
      exact hn ⟨hslot.2, hslot.1⟩
  obtain ⟨row, hrow⟩ := hrow
  refine ⟨{ db with
    analyses := modify (clearLatestForThread db.analyses target.id) analysis.id fun _ =>
      analysis.attachedTo db.analyses target.id
    threads := modify db.threads target.id (AnalysisThread.persisted analysis.id now) }, ?_, rfl, ?_⟩
  · simp only [attachAnalysis, hget, hthread, attachedTo_cleared]
    exact if_neg hflush
  · rw [← hdelete]
    exact modify_perm hcleared hrow fun _ => analysis.attachedTo db.analyses target.id

/-- Attaching keeps both threads well formed if and only if the analysis can be attached. -/
theorem attachAnalysis_wellFormed_iff (hw : ThreadsWellFormed db) (ht : target ∈ db.threads)
    (ha : analysis ∈ db.analyses) (hs : source ∈ db.threads) (hsource : analysis.threadId = source.id)
    (now : Time) :
    (∀ attached after, attachAnalysis db target.id analysis.id now = .ok (attached, after) →
      WellFormedAt after target.id ∧ WellFormedAt after source.id) ↔
    Attachable db.analyses target source analysis := by
  obtain ⟨after, hok, hthreads, hperm⟩ := attachAnalysis_ok hw ht ha now
  set attached := analysis.attachedTo db.analyses target.id with hattached
  set others := delete db.analyses analysis.id with hothers
  have hdb : db.analyses.Perm (analysis :: others) := delete_perm hw.analyses (get_of_mem hw.analyses ha)
  have hwt := (hw.wellFormed target ht).of_perm hdb
  have hws := (hw.wellFormed source hs).of_perm hdb
  have htarget : WellFormedAt after target.id ↔
      WellFormed (attached :: clearLatestForThread others target.id)
        (target.persisted attached.id now) := by
    rw [← wellFormed_perm hperm, WellFormedAt, hthreads]
    refine ⟨fun h => h _ ?_ rfl, fun h thread hm hid => ?_⟩
    · exact List.mem_map.mpr ⟨target, ht, if_pos rfl⟩
    · rcases mem_modify hm with ⟨-, hne⟩ | ⟨thread', hm', hk, rfl⟩
      · exact absurd hid hne
      · rwa [List.inj_on_of_nodup_map hw.threads hm' ht hk]
  have hcount : ∀ threadId, nextContinuationIndex db.analyses threadId =
      nextContinuationIndex others threadId + if analysis.threadId = threadId then 1 else 0 := by
    intro threadId
    rw [nextContinuationIndex_perm hdb, nextContinuationIndex_cons]
  have howner : ∀ row ∈ others, row.threadId = target.id → row.sessionId = target.sessionId :=
    fun row hr => hwt.owner row (List.mem_cons_of_mem _ hr)
  have hsession : analysis.sessionId = source.sessionId := hws.owner _ List.mem_cons_self hsource
  have hall : (∀ a t, attachAnalysis db target.id analysis.id now = .ok (a, t) →
      WellFormedAt t target.id ∧ WellFormedAt t source.id) ↔
      WellFormedAt after target.id ∧ WellFormedAt after source.id := by
    rw [hok]
    simp
  rw [hall, htarget, wellFormed_target rfl rfl]
  by_cases hsame : source.id = target.id
  · -- the analysis stays in its thread, and keeps its index
    rw [hsame] at hsource
    have hnumbered := hwt.numbered
    rw [indices_cons, if_pos hsource, nextContinuationIndex_cons, if_pos hsource] at hnumbered
    have hindex : attached.continuationIndex = analysis.continuationIndex :=
      if_neg fun h => h.2 hsource
    have hin : analysis.sessionId = target.sessionId := hwt.owner _ List.mem_cons_self hsource
    have hgood : WellFormedAt after target.id := by
      rw [htarget, wellFormed_target rfl rfl, hindex]
      exact ⟨hnumbered, hin, howner⟩
    rw [hsame, hindex]
    exact iff_of_true ⟨⟨hnumbered, hin, howner⟩, hgood⟩ (.inl hsame)
  · have hout : analysis.threadId ≠ target.id := fun h => hsame (hsource.symm.trans h)
    have hsourceAt : WellFormedAt after source.id ↔
        WellFormed (attached :: clearLatestForThread others target.id) source := by
      rw [← wellFormed_perm hperm, WellFormedAt, hthreads]
      refine ⟨fun h => h _ ?_ rfl, fun h thread hm hid => ?_⟩
      · exact List.mem_map.mpr ⟨source, hs, if_neg hsame⟩
      · rcases mem_modify hm with ⟨hm', -⟩ | ⟨thread', -, hk, rfl⟩
        · rwa [List.inj_on_of_nodup_map hw.threads hm' hs hid]
        · exact absurd (hid.symm.trans hk) hsame
    have hnumbered := hwt.numbered
    rw [indices_cons, if_neg hout, nextContinuationIndex_cons, if_neg hout, Nat.add_zero] at hnumbered
    have hnext := Ordering.perm_range_succ (i := attached.continuationIndex) hnumbered
    rw [(List.perm_append_singleton _ _).congr_left] at hnext
    rw [hsourceAt, wellFormed_source hws hsource rfl hsame, hnext, Attachable, or_iff_right hsame,
      hcount source.id, hcount target.id, if_pos hsource, if_neg hout, Nat.add_zero]
    have hindex : attached.continuationIndex = if analysis.continuationIndex = 0 then
        nextContinuationIndex others target.id else analysis.continuationIndex := by
      simp [hattached, SessionAnalysis.attachedTo, hout, hcount]
    have hfirst : nextContinuationIndex others source.id = 0 → analysis.continuationIndex = 0 := by
      intro hnone
      have hn := hws.numbered
      rw [indices_cons, if_pos hsource, nextContinuationIndex_cons, if_pos hsource, hnone] at hn
      have hmem := hn.mem_iff.mp List.mem_cons_self
      simpa using hmem
    have hin : attached.sessionId = analysis.sessionId := rfl
    rw [hindex, hin, hsession, and_iff_left howner]
    by_cases hnone : nextContinuationIndex others source.id = 0
    · simp [hnone, hfirst hnone]
    · by_cases hzero : analysis.continuationIndex = 0
      · have hindex : ¬ 0 = nextContinuationIndex others source.id := fun h => hnone h.symm
        simp [hzero, hnone, hindex]
      · rw [if_neg hzero]
        simp only [hnone, false_or, Nat.add_eq_right, Nat.add_right_cancel_iff]
        tauto

end Move

namespace Attachment

def row (id : Uuid) (index : ℕ) (isLatest : Bool) : SessionAnalysis where
  id := id
  sessionId := 1
  threadId := 5
  userId := 3
  provider := "mock"
  model := "mock-v1"
  promptVersion := "v1"
  analysisVersion := "dream_v1"
  analysisJson := "\x7b\x7d"
  rawResponse := none
  isLatest := isLatest
  continuationIndex := index
  analysisJobId := none
  createdAt := 0

def source (last : Uuid) : AnalysisThread := ⟨5, 1, .idle, 0, some 0, some last⟩

def target : AnalysisThread := ⟨6, 1, .active, 0, none, none⟩

/-- A thread with two analyses, and an empty one of the same session. -/
def database : Database :=
  { Database.empty with
    threads := [source 11, target]
    analyses := [row 10 0 false, row 11 1 true] }

/-- The same with one analysis. -/
def database₁ : Database :=
  { Database.empty with
    threads := [source 10, target]
    analyses := [row 10 0 true] }

theorem wellFormed_database : ThreadsWellFormed database where
  threads := by simp [DistinctKeys, database, source, target]
  analyses := by simp [DistinctKeys, database, row]
  wellFormed := by
    simp only [database, List.forall_mem_cons]
    refine ⟨⟨by decide, fun _ => ⟨row 11 1 true, by decide, rfl⟩, by decide⟩,
      ⟨by decide, fun h => ?_, by decide⟩, by simp⟩
    exact absurd h (by decide)

theorem wellFormed_database₁ : ThreadsWellFormed database₁ where
  threads := by simp [DistinctKeys, database₁, source, target]
  analyses := by simp [DistinctKeys, database₁]
  wellFormed := by
    simp only [database₁, List.forall_mem_cons]
    refine ⟨⟨by decide, fun _ => ⟨row 10 0 true, by decide, rfl⟩, by decide⟩,
      ⟨by decide, fun h => ?_, by decide⟩, by simp⟩
    exact absurd h (by decide)

/-- The only analysis of a thread can be moved. -/
theorem attached_only : ∃ attached after,
    attachAnalysis database₁ target.id (row 10 0 true).id 7 = .ok (attached, after) ∧
      WellFormedAt after target.id ∧ WellFormedAt after (source 10).id :=
  ⟨_, _, rfl, (attachAnalysis_wellFormed_iff wellFormed_database₁
    (by simp [database₁] : target ∈ database₁.threads)
    (by simp [database₁] : row 10 0 true ∈ database₁.analyses)
    (by simp [database₁] : source 10 ∈ database₁.threads) rfl 7).mpr
    (.inr ⟨rfl, .inl (by decide)⟩) _ _ rfl⟩

/-- The latest of two analyses is moved to an empty thread: it keeps the index 1 there, and no
analysis of its thread is the latest any more. -/
theorem attached_latest : ¬ ∀ (db : Database) (target source : AnalysisThread)
    (analysis : SessionAnalysis) (now : Time), ThreadsWellFormed db → target ∈ db.threads →
    analysis ∈ db.analyses → source ∈ db.threads → analysis.threadId = source.id →
    ∀ attached after, attachAnalysis db target.id analysis.id now = .ok (attached, after) →
      WellFormedAt after target.id ∧ WellFormedAt after source.id := by
  intro h
  have hno := h database target (source 11) (row 11 1 true) 7 wellFormed_database (by simp [database])
    (by simp [database]) (by simp [database]) rfl _ _ rfl
  obtain ⟨latest, hlatest, -⟩ := (hno.2 (source 11) (by decide) rfl).latest (by decide)
  have hnone : ([] : List SessionAnalysis) = [latest] := by
    rw [← hlatest]
    decide
  cases hnone

end Attachment

end LiberNovus.Analysis

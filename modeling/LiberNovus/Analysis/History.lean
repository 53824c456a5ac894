import LiberNovus.Foundation.Ordering
import LiberNovus.Analysis.Ownership

/-! The analyses of a session as they are read back, in the order of `created_at`, which is
the start of the transaction that stored the row. The latest flag and the continuation index
follow the order of the statements.

Proved: along a run the two orders agree for every session, exactly when every analysis that
is committed was started after those of its thread that are committed by then, and none of
these has a greater index. -/

namespace LiberNovus.Analysis

open Rows ReadCommitted Runs LiberNovus.Ordering

namespace SessionAnalysis

/-- `created_at DESC, continuation_index DESC, id DESC`. -/
def Newer (a b : SessionAnalysis) : Prop :=
  b.createdAt < a.createdAt ∨ b.createdAt = a.createdAt ∧
    (b.continuationIndex < a.continuationIndex ∨
      b.continuationIndex = a.continuationIndex ∧ b.id ≤ a.id)

/-- `thread_id, created_at`. -/
def ByThread (a b : SessionAnalysis) : Prop :=
  a.threadId < b.threadId ∨ a.threadId = b.threadId ∧ a.createdAt ≤ b.createdAt

def Older (a b : SessionAnalysis) : Prop := a.createdAt ≤ b.createdAt

instance : DecidableRel Newer := fun _ _ => inferInstanceAs (Decidable (_ ∨ _))

instance : DecidableRel ByThread := fun _ _ => inferInstanceAs (Decidable (_ ∨ _))

instance : DecidableRel Older := fun _ _ => inferInstanceAs (Decidable (_ ≤ _))

instance : Std.Total Newer := ⟨by unfold Newer Time Uuid; omega⟩

instance : IsTrans SessionAnalysis Newer := ⟨by unfold Newer Time Uuid; omega⟩

instance : Std.Total ByThread := ⟨by unfold ByThread Time Uuid; omega⟩

instance : IsTrans SessionAnalysis ByThread := ⟨by unfold ByThread Time Uuid; omega⟩

instance : Std.Total Older := ⟨by unfold Older Time; omega⟩

instance : IsTrans SessionAnalysis Older := ⟨by unfold Older Time; omega⟩

end SessionAnalysis

open SessionAnalysis

/-! ### The reads -/

/-- `SessionAnalysisItemSchema`; `Λ` are the legacy presentations of an analysis. -/
structure SessionAnalysisItem (Λ : Type*) where
  id : Uuid
  createdAt : Time
  isLatest : Bool
  continuationIndex : ℕ
  provider : String
  model : String
  promptVersion : String
  analysisVersion : String
  analysisJson : Λ
  rawResponse : Option String

structure SessionAnalysisThreadGroup (Λ : Type*) where
  threadId : Uuid
  status : ThreadStatus
  analyses : List (SessionAnalysisItem Λ)

structure SessionAnalysisHistory (Λ : Type*) where
  sessionId : Uuid
  threads : List (SessionAnalysisThreadGroup Λ)

section Reads

/-- `get_session_analysis`, on the rows in the order of the scan. -/
def getSessionAnalysis (analyses : List SessionAnalysis) (sessionId : Uuid) :
    Option SessionAnalysis :=
  ((analyses.filter fun row => row.sessionId = sessionId).insertionSort Newer).head?

def listSessionAnalyses (analyses : List SessionAnalysis) (sessionId : Uuid) :
    List SessionAnalysis :=
  (analyses.filter fun row => row.sessionId = sessionId).insertionSort ByThread

def listSessionThreads (threads : List AnalysisThread) (sessionId : Uuid) : List AnalysisThread :=
  (threads.filter fun thread => thread.sessionId = sessionId).insertionSort fun a b =>
    a.createdAt ≤ b.createdAt

variable {Λ : Type*} (toLegacyPresentation : String → Λ)

def buildSessionAnalysisItemSchema (analysis : SessionAnalysis) : SessionAnalysisItem Λ where
  id := analysis.id
  createdAt := analysis.createdAt
  isLatest := analysis.isLatest
  continuationIndex := analysis.continuationIndex
  provider := analysis.provider
  model := analysis.model
  promptVersion := analysis.promptVersion
  analysisVersion := analysis.analysisVersion
  analysisJson := toLegacyPresentation analysis.analysisJson
  rawResponse := analysis.rawResponse

/-- One entry of `sortable_groups`; a group is never empty. -/
def sortableGroup (threads : List AnalysisThread) (group : Uuid × List SessionAnalysis) :
    Time × SessionAnalysisThreadGroup Λ :=
  let sortedAnalyses := group.2.insertionSort Older
  (sortedAnalyses.getLast?.elim 0 SessionAnalysis.createdAt,
    { threadId := group.1
      status := (get threads group.1).elim .active AnalysisThread.status
      analyses := sortedAnalyses.map (buildSessionAnalysisItemSchema toLegacyPresentation) })

def getSessionAnalysisHistory (analyses : List SessionAnalysis) (threads : List AnalysisThread)
    (sessionId : Uuid) : SessionAnalysisHistory Λ where
  sessionId := sessionId
  threads :=
    (((grouped SessionAnalysis.threadId (listSessionAnalyses analyses sessionId)).map
      (sortableGroup toLegacyPresentation (listSessionThreads threads sessionId))).insertionSort
        fun a b => b.1 ≤ a.1).map Prod.snd

end Reads

/-- In whatever order the database scans its rows, the last item of a group is its latest one
and has the greatest index, and in a session with a single group it is what
`get_session_analysis` returns. -/
def Agree {Λ : Type*} (toLegacyPresentation : String → Λ) (analyses : List SessionAnalysis)
    (threads : List AnalysisThread) : Prop :=
  ∀ scan scan', scan.Perm analyses → scan'.Perm threads → ∀ sessionId,
    let history := getSessionAnalysisHistory toLegacyPresentation scan scan' sessionId
    ∀ group ∈ history.threads, ∃ last ∈ group.analyses.getLast?, last.isLatest = true ∧
      (∀ item ∈ group.analyses, (item.isLatest = true → item = last) ∧
        item.continuationIndex ≤ last.continuationIndex) ∧
      (history.threads = [group] → ∃ row ∈ getSessionAnalysis scan sessionId,
        last = buildSessionAnalysisItemSchema toLegacyPresentation row)

/-- Every thread has a row that is the latest by its flag, by its start and by its index. -/
def Ordered (analyses : List SessionAnalysis) : Prop :=
  ∀ c ∈ analyses, ∃ x ∈ analyses, x.threadId = c.threadId ∧ x.isLatest = true ∧
    ∀ y ∈ analyses, y.threadId = x.threadId → y ≠ x →
      y.isLatest = false ∧ y.createdAt < x.createdAt ∧ y.continuationIndex ≤ x.continuationIndex

/-! ### The groups -/

section Groups

variable {Λ : Type*} {toLegacyPresentation : String → Λ} {scan : List SessionAnalysis}
  {threads : List AnalysisThread} {sessionId threadId : Uuid} {x y : SessionAnalysis}

/-- The rows of a group, in the order in which they are read. -/
def groupRows (scan : List SessionAnalysis) (sessionId threadId : Uuid) : List SessionAnalysis :=
  (listSessionAnalyses scan sessionId).filter fun row => row.threadId = threadId

theorem mem_groupRows : y ∈ groupRows scan sessionId threadId ↔
    y ∈ scan ∧ y.sessionId = sessionId ∧ y.threadId = threadId := by
  simp [groupRows, listSessionAnalyses, List.mem_insertionSort, and_assoc]

theorem mem_history {group : SessionAnalysisThreadGroup Λ} :
    group ∈ (getSessionAnalysisHistory toLegacyPresentation scan threads sessionId).threads ↔
      ∃ threadId, groupRows scan sessionId threadId ≠ [] ∧
        group = (sortableGroup toLegacyPresentation (listSessionThreads threads sessionId)
          (threadId, groupRows scan sessionId threadId)).2 := by
  simp only [getSessionAnalysisHistory, List.mem_map, List.mem_insertionSort, Prod.exists]
  constructor
  · rintro ⟨_, _, ⟨k, xs, hg, he⟩, rfl⟩
    obtain ⟨rfl, z, hz, hk⟩ := mem_grouped.mp hg
    refine ⟨k, List.ne_nil_of_mem (List.mem_filter.mpr ⟨hz, by simpa using hk⟩), ?_⟩
    exact (congrArg Prod.snd he).symm
  · rintro ⟨k, hne, rfl⟩
    obtain ⟨z, hz⟩ := List.exists_mem_of_ne_nil _ hne
    obtain ⟨hz, hk⟩ := List.mem_filter.mp hz
    exact ⟨_, _, ⟨k, _, mem_grouped.mpr ⟨rfl, z, hz, by simpa using hk⟩, rfl⟩, rfl⟩

/-- The items of a group, and the last one. -/
theorem getLast?_sortableGroup (group : Uuid × List SessionAnalysis) :
    (sortableGroup toLegacyPresentation threads group).2.analyses.getLast? =
      (group.2.insertionSort Older).getLast?.map
        (buildSessionAnalysisItemSchema toLegacyPresentation) := by
  rw [sortableGroup, List.getLast?_map]

theorem mem_sortableGroup {group : Uuid × List SessionAnalysis} {item : SessionAnalysisItem Λ} :
    item ∈ (sortableGroup toLegacyPresentation threads group).2.analyses ↔
      ∃ row ∈ group.2, buildSessionAnalysisItemSchema toLegacyPresentation row = item := by
  simp [sortableGroup, List.mem_insertionSort]

theorem nodup_of_perm {analyses : List SessionAnalysis} (hu : DistinctKeys analyses)
    (hp : scan.Perm analyses) : scan.Nodup :=
  hp.nodup_iff.mpr (List.Nodup.of_map _ hu)

/-- A row that the scan meets after all rows of its group, and that is as new as each of
them, is the last one of its group. -/
theorem getLast?_groupRows (hn : scan.Nodup) (hx : x ∈ groupRows scan sessionId threadId)
    (h : ∀ y ∈ groupRows scan sessionId threadId, y ≠ x →
      y.createdAt ≤ x.createdAt ∧ [y, x].Sublist scan) :
    ((groupRows scan sessionId threadId).insertionSort Older).getLast? = some x := by
  have hnd : (groupRows scan sessionId threadId).Nodup :=
    (((List.perm_insertionSort _ _).nodup_iff).mpr (hn.filter _)).filter _
  refine getLast?_insertionSort_of_scan hnd hx fun y hy hne => ?_
  obtain ⟨hle, hsub⟩ := h y hy hne
  obtain ⟨-, hys, hyt⟩ := mem_groupRows.mp hy
  obtain ⟨-, hxs, hxt⟩ := mem_groupRows.mp hx
  have hpair := List.pair_sublist_insertionSort (r := ByThread)
    (.inr ⟨hyt.trans hxt.symm, hle⟩) (l := scan.filter fun row => row.sessionId = sessionId) (by
      simpa [hys, hxs] using hsub.filter fun row => decide (row.sessionId = sessionId))
  refine ⟨hle, ?_⟩
  simpa [groupRows, listSessionAnalyses, hyt, hxt] using
    hpair.filter fun row => decide (row.threadId = threadId)

end Groups

/-! ### The orders agree -/

section Agreement

variable {Λ : Type*} {toLegacyPresentation : String → Λ} {analyses : List SessionAnalysis}
  {threads : List AnalysisThread}

theorem item_injective (hu : DistinctKeys analyses) {x y : SessionAnalysis} (hx : x ∈ analyses)
    (hy : y ∈ analyses) (h : buildSessionAnalysisItemSchema toLegacyPresentation x =
      buildSessionAnalysisItemSchema toLegacyPresentation y) : x = y :=
  List.inj_on_of_nodup_map hu hx hy (congrArg SessionAnalysisItem.id h)

/-- All rows of a thread are in one session. -/
def OneSession (analyses : List SessionAnalysis) : Prop :=
  ∀ y ∈ analyses, ∀ z ∈ analyses, y.threadId = z.threadId → y.sessionId = z.sessionId

theorem agree_of_ordered (hs : OneSession analyses) (h : Ordered analyses) :
    Agree toLegacyPresentation analyses threads := by
  intro scan scan' hp _ sessionId history group hg
  have hmem : ∀ {y}, y ∈ scan ↔ y ∈ analyses := hp.mem_iff
  obtain ⟨threadId, hne, rfl⟩ := mem_history.mp hg
  obtain ⟨c, hc⟩ := List.exists_mem_of_ne_nil _ hne
  obtain ⟨hcm, hcs, hct⟩ := mem_groupRows.mp hc
  rw [hmem] at hcm
  obtain ⟨x, hx, hxt, hlatest, hnew⟩ := h c hcm
  have hxs : x.sessionId = sessionId := (hs x hx c hcm hxt).trans hcs
  have hxg : x ∈ groupRows scan sessionId threadId :=
    mem_groupRows.mpr ⟨hmem.mpr hx, hxs, hxt.trans hct⟩
  have hother : ∀ y ∈ groupRows scan sessionId threadId, y ≠ x → y.isLatest = false ∧
      y.createdAt < x.createdAt ∧ y.continuationIndex ≤ x.continuationIndex := by
    intro y hy hyx
    obtain ⟨hym, -, hyt⟩ := mem_groupRows.mp hy
    exact hnew y (hmem.mp hym) (hyt.trans (hxt.trans hct).symm) hyx
  refine ⟨buildSessionAnalysisItemSchema toLegacyPresentation x, ?_, hlatest, ?_, ?_⟩
  · have hlast : ((groupRows scan sessionId threadId).insertionSort Older).getLast? = some x :=
      getLast?_insertionSort hxg fun y hy hyx => not_le.mpr (hother y hy hyx).2.1
    rw [getLast?_sortableGroup, hlast]
    rfl
  · intro item hitem
    obtain ⟨y, hy, rfl⟩ := mem_sortableGroup.mp hitem
    by_cases hyx : y = x
    · subst hyx
      exact ⟨fun _ => rfl, le_rfl⟩
    · obtain ⟨hfalse, -, hle⟩ := hother y hy hyx
      refine ⟨fun hl => ?_, hle⟩
      rw [show y.isLatest = true from hl] at hfalse
      cases hfalse
  · -- in a session with one group every row is in it
    intro hone
    refine ⟨x, head?_insertionSort (List.mem_filter.mpr ⟨hmem.mpr hx, by simpa using hxs⟩) ?_, rfl⟩
    intro y hy hyx hyn
    obtain ⟨hym, hys⟩ := List.mem_filter.mp hy
    have hyg : y ∈ groupRows scan sessionId y.threadId :=
      mem_groupRows.mpr ⟨hym, by simpa using hys, rfl⟩
    have hsame : (sortableGroup toLegacyPresentation (listSessionThreads scan' sessionId)
        (y.threadId, groupRows scan sessionId y.threadId)).2 ∈ history.threads :=
      mem_history.mpr ⟨y.threadId, List.ne_nil_of_mem hyg, rfl⟩
    rw [hone, List.mem_singleton] at hsame
    have hyt : y.threadId = threadId := congrArg SessionAnalysisThreadGroup.threadId hsame
    have hlt := (hother y (hyt ▸ hyg) hyx).2.1
    unfold Newer at hyn
    unfold Time at hlt hyn
    omega

theorem ordered_of_agree (hu : DistinctKeys analyses) (hs : OneSession analyses)
    (h : Agree toLegacyPresentation analyses threads) : Ordered analyses := by
  intro c hc
  -- the row that comes last in the group, for some order of the scan
  have hlast : ∀ scan : List SessionAnalysis, scan.Perm analyses →
      ∃ x ∈ analyses, x.threadId = c.threadId ∧
        ((groupRows scan c.sessionId c.threadId).insertionSort Older).getLast? = some x ∧
        x.isLatest = true ∧ ∀ y ∈ analyses, y.threadId = c.threadId →
          (y.isLatest = true → y = x) ∧ y.continuationIndex ≤ x.continuationIndex := by
    intro scan hp
    have hmem : ∀ {y}, y ∈ scan ↔ y ∈ analyses := hp.mem_iff
    have hcg : c ∈ groupRows scan c.sessionId c.threadId :=
      mem_groupRows.mpr ⟨hmem.mpr hc, rfl, rfl⟩
    obtain ⟨last, hl, hlatest, hitems, -⟩ := h scan threads hp (List.Perm.refl _) c.sessionId _
      (mem_history.mpr ⟨c.threadId, List.ne_nil_of_mem hcg, rfl⟩)
    rw [getLast?_sortableGroup] at hl
    obtain ⟨x, hx, rfl⟩ := Option.map_eq_some_iff.mp hl
    have hxg : x ∈ groupRows scan c.sessionId c.threadId :=
      (List.mem_insertionSort Older).mp (List.mem_of_getLast? hx)
    obtain ⟨hxm, -, hxt⟩ := mem_groupRows.mp hxg
    refine ⟨x, hmem.mp hxm, hxt, hx, hlatest, fun y hy hyt => ?_⟩
    have hyg : y ∈ groupRows scan c.sessionId c.threadId :=
      mem_groupRows.mpr ⟨hmem.mpr hy, hs y hy c hc hyt, hyt⟩
    obtain ⟨hone, hle⟩ := hitems _ (mem_sortableGroup.mpr ⟨y, hyg, rfl⟩)
    exact ⟨fun hyl => item_injective hu hy (hmem.mp hxm) (hone hyl), hle⟩
  obtain ⟨x, hx, hxt, hxl, hlatest, hall⟩ := hlast analyses (List.Perm.refl _)
  refine ⟨x, hx, hxt, hlatest, fun y hy hyt hyx => ?_⟩
  rw [hxt] at hyt
  obtain ⟨hone, hle⟩ := hall y hy hyt
  have hfalse : y.isLatest = false := by
    cases hyl : y.isLatest with
    | false => rfl
    | true => exact absurd (hone hyl) hyx
  refine ⟨hfalse, ?_, hle⟩
  by_contra hnlt
  -- `y` is as new as `x`: a scan that meets `y` last puts it last
  have hscan : (analyses.erase y ++ [y]).Perm analyses :=
    (List.perm_append_singleton y _).trans (List.perm_cons_erase hy).symm
  obtain ⟨z, -, -, hzl, hzlatest, -⟩ := hlast _ hscan
  have hyg : y ∈ groupRows (analyses.erase y ++ [y]) c.sessionId c.threadId :=
    mem_groupRows.mpr ⟨hscan.mem_iff.mpr hy, hs y hy c hc hyt, hyt⟩
  have hyl := getLast?_groupRows (nodup_of_perm hu hscan) hyg fun w hw hwy => by
    obtain ⟨hwm, hws, hwt⟩ := mem_groupRows.mp hw
    have hwa : w ∈ analyses := hscan.mem_iff.mp hwm
    have hwx : Older w x := rel_of_getLast? hxl (mem_groupRows.mpr ⟨hwa, hws, hwt⟩)
    refine ⟨le_trans (show w.createdAt ≤ x.createdAt from hwx) (not_lt.mp hnlt), ?_⟩
    exact (List.singleton_sublist.mpr ((List.mem_erase_of_ne hwy).mpr hwa)).append
      (List.Sublist.refl [y])
  obtain rfl := Option.some.inj (hyl.symm.trans hzl)
  rw [hzlatest] at hfalse
  cases hfalse

end Agreement

/-! ### Every run -/

namespace History

open LiveThreads

def Agrees {Λ : Type*} (toLegacyPresentation : String → Λ) (s : State) : Prop :=
  Agree toLegacyPresentation s.db.analyses.committed s.db.threads.committed

/-- The transaction that commits an analysis started after those of all analyses that the
thread has by then, and none of them has a greater index. -/
def StartedLast (s : State) : Event → Prop
  | .commit a => ∀ r ∈ stored s a, ∀ y ∈ s.db.analyses.committed, y.threadId = r.threadId →
      y.createdAt < r.createdAt ∧ y.continuationIndex ≤ r.continuationIndex
  | _ => True

section Steps

variable {s t : State} {a : ℕ}

/-- The analyses of a thread are all in its session. -/
theorem oneSession_of_kept (h : Kept s) : OneSession s.db.analyses.committed := by
  intro y hy z hz ht
  obtain ⟨th, hth, hs⟩ := h.placed y hy
  obtain ⟨th', hth', hs'⟩ := h.placed z hz
  rw [ht, hth'] at hth
  obtain rfl := Option.some.inj hth
  rw [← hs, ← hs']

theorem agrees_iff {Λ : Type*} {toLegacyPresentation : String → Λ} (h : Kept s) :
    Agrees toLegacyPresentation s ↔ Ordered s.db.analyses.committed :=
  ⟨ordered_of_agree h.wf.holds.consistent.unique (oneSession_of_kept h),
    agree_of_ordered (oneSession_of_kept h)⟩

/-- The persistence that has stored the row. -/
theorem work_of_stored {r : SessionAnalysis} (hr : stored s a = some r) :
    ∃ x, work s a = some x ∧ x.phase.stored = some r := by
  rw [stored_eq_work] at hr
  exact Option.bind_eq_some_iff.mp hr

/-- What a transaction that has stored its row sees in place of a committed row: in its own
thread the flags are cleared. -/
theorem overlay_eq (h : Kept s) {r c : SessionAnalysis} (hr : stored s a = some r)
    (hc : c ∈ s.db.analyses.committed) : (s.db.analyses.updates a c.id).getD c =
      if c.threadId = r.threadId then c.superseded else c := by
  have hins : r ∈ s.db.analyses.inserts a := by rw [inserts_eq_stored h, hr]; simp
  have hview : (s.db.analyses.updates a c.id).getD c ∈ s.db.analyses.view a :=
    List.mem_append_left _ (List.mem_map.mpr ⟨c, hc, rfl⟩)
  rcases overlay_cases h a hc rfl with hv | ⟨hv, x, hx, -, ht⟩
  · rw [hv] at hview ⊢
    split
    · next ht =>
      cases hl : c.isLatest with
      | false => rw [SessionAnalysis.superseded, ← hl]
      | true =>
        -- the only latest row it sees is its own, which is not committed
        obtain rfl := (h.flags.exclusive a r hins).2 c hview ⟨ht, hl⟩
        have hnew := (h.wf.holds.consistent.inserted a c hins).2
        rw [Table.row, get_of_mem h.wf.holds.consistent.unique hc] at hnew
        cases hnew
    · rfl
  · obtain ⟨x', hx', hs⟩ := work_of_stored hr
    obtain rfl := Option.some.inj (hx'.symm.trans hx)
    rw [hv, if_pos]
    rw [((h.flags.aimed a x' hx').row r (Phase.row_of_stored hs)).1, ht]

/-- What the commit of an analysis does to the committed rows. -/
theorem mem_commit (h : Kept s) {r : SessionAnalysis} (hr : stored s a = some r)
    (y : SessionAnalysis) : y ∈ (s.db.analyses.commit a).committed ↔
      y = r ∨ ∃ c ∈ s.db.analyses.committed,
        y = if c.threadId = r.threadId then c.superseded else c := by
  rw [Table.commit_committed, Table.view, List.mem_append, List.mem_map, inserts_eq_stored h, hr,
    Option.toList_some, List.mem_singleton, or_comm]
  refine or_congr Iff.rfl (exists_congr fun c => and_congr_right fun hc => ?_)
  rw [key_analysis, overlay_eq h hr hc]
  exact eq_comm

/-- A commit without an analysis changes no row. -/
theorem committed_of_not_stored (h : Kept s) (hr : stored s a = none)
    (ht : step s (.commit a) = some t) : t.db.analyses.committed = s.db.analyses.committed := by
  simp only [step, Option.bind_eq_bind, Option.bind_eq_some_iff, Option.ite_none_right_eq_some,
    Option.some.injEq] at ht
  obtain ⟨tx, htx, hcom, rfl⟩ := ht
  have hidle : ∀ x ∈ work s a, ¬ x.phase.Writing := by
    intro x hx hw
    rw [stored_eq_work, Option.mem_def.mp hx, Option.bind_some] at hr
    unfold work at hx
    rw [htx] at hx
    cases tx with
    | closing => cases hx
    | analysis y =>
      simp only [Option.mem_def, Option.bind_some, Tx.persist, Transaction.persist] at hx
      simp only [Committable] at hcom
      split at hx <;> cases hx
      next hs =>
      rw [hs] at hcom
      cases hp : x.phase <;> simp_all [Phase.Writing, Phase.stored]
  have hmap : ∀ c ∈ s.db.analyses.committed, (s.db.analyses.updates a (key c)).getD c = c := by
    intro c hc
    rcases overlay_cases h a hc rfl with hv | ⟨-, x, hx, hw, -⟩
    · exact hv
    · exact absurd hw (hidle x hx)
  rw [Table.commit_committed, Table.view, inserts_eq_stored h, hr, Option.toList_none,
    List.append_nil, List.map_congr_left hmap, List.map_id']

/-- The commit of an analysis keeps the order of its thread exactly when it was started
last; the other threads stay as they are. -/
theorem ordered_commit (h : Kept s) (ho : Ordered s.db.analyses.committed) {r : SessionAnalysis}
    (hr : stored s a = some r) : Ordered (s.db.analyses.commit a).committed ↔
      ∀ y ∈ s.db.analyses.committed, y.threadId = r.threadId →
        y.createdAt < r.createdAt ∧ y.continuationIndex ≤ r.continuationIndex := by
  obtain ⟨x, hx, hs⟩ := work_of_stored hr
  have hlatest : r.isLatest = true := ((h.flags.aimed a x hx).row r (Phase.row_of_stored hs)).2
  have hnew : ∀ c ∈ s.db.analyses.committed, c.id ≠ r.id := by
    intro c hc hid
    have hins : r ∈ s.db.analyses.inserts a := by rw [inserts_eq_stored h, hr]; simp
    have hn := (h.wf.holds.consistent.inserted a r hins).2
    rw [key_analysis, ← hid, ← key_analysis, Table.row,
      get_of_mem h.wf.holds.consistent.unique hc] at hn
    cases hn
  constructor
  · intro ho' y hy ht
    -- the latest row of the thread can only be the new one
    obtain ⟨z, hz, hzt, hzl, hother⟩ := ho' r ((mem_commit h hr r).mpr (.inl rfl))
    have hzr : z = r := by
      rcases (mem_commit h hr z).mp hz with rfl | ⟨c, -, rfl⟩
      · rfl
      · split at hzt
        · next hct => rw [if_pos hct] at hzl; cases hzl
        · next hct => exact absurd hzt hct
    subst hzr
    have hy' := hother y.superseded ((mem_commit h hr _).mpr (.inr ⟨y, hy, by rw [if_pos ht]⟩)) ht
      fun he => hnew y hy (show y.superseded.id = z.id from congrArg SessionAnalysis.id he)
    exact hy'.2
  · intro hlast c hc
    by_cases hct : c.threadId = r.threadId
    · refine ⟨r, (mem_commit h hr r).mpr (.inl rfl), hct.symm, hlatest, fun y hy hyt hyr => ?_⟩
      rcases (mem_commit h hr y).mp hy with rfl | ⟨c', hc', rfl⟩
      · exact absurd rfl hyr
      · have ht : c'.threadId = r.threadId := by
          split at hyt
          · assumption
          · exact hyt
        rw [if_pos ht]
        exact ⟨rfl, hlast c' hc' ht⟩
    · rcases (mem_commit h hr c).mp hc with rfl | ⟨c', hc', rfl⟩
      · exact absurd rfl hct
      · have ht : c'.threadId ≠ r.threadId := by
          intro ht
          rw [if_pos ht] at hct
          exact hct ht
        rw [if_neg ht]
        obtain ⟨z, hz, hzt, hzl, hother⟩ := ho c' hc'
        have hzr : z.threadId ≠ r.threadId := by rwa [hzt]
        refine ⟨z, (mem_commit h hr z).mpr (.inr ⟨z, hz, by rw [if_neg hzr]⟩), hzt, hzl, ?_⟩
        intro y hy hyt hyz
        rcases (mem_commit h hr y).mp hy with rfl | ⟨c'', hc'', rfl⟩
        · exact absurd hyt.symm hzr
        · have ht' : c''.threadId ≠ r.threadId := by
            intro ht'
            rw [if_pos ht'] at hyt
            exact hzr (hyt.symm.trans ht')
          rw [if_neg ht'] at hyt hyz ⊢
          exact hother c'' hc'' hyt hyz

/-- The step lemma. -/
theorem ordered_step {e : Event} (h : Kept s) (ho : Ordered s.db.analyses.committed)
    (ht : step s e = some t) : Ordered t.db.analyses.committed ↔ StartedLast s e := by
  by_cases he : ∀ a, e ≠ .commit a
  · rw [(committed_step he ht).2]
    refine iff_of_true ho ?_
    cases e with
    | commit a => exact absurd rfl (he a)
    | begin | close | step | rollback => trivial
  · obtain ⟨a, rfl⟩ : ∃ a, e = .commit a := by simpa using he
    cases hr : stored s a with
    | none =>
      rw [committed_of_not_stored h hr ht]
      exact iff_of_true ho (by simp [StartedLast, hr])
    | some r =>
      simp only [step, Option.bind_eq_bind, Option.bind_eq_some_iff, Option.ite_none_right_eq_some,
        Option.some.injEq] at ht
      obtain ⟨tx, -, -, rfl⟩ := ht
      rw [ordered_commit h ho hr, StartedLast, hr]
      simp

end Steps

/-- From a state in which they agree, what is read of every session agrees with the latest
flags along a run, exactly as long as every analysis that is committed was started last. -/
theorem agrees_iff_startedLast {Λ : Type*} (toLegacyPresentation : String → Λ)
    {sessions : List Session.DreamSession} {threads : List AnalysisThread}
    {analyses : List SessionAnalysis} (ht : DistinctKeys threads) (ha : DistinctKeys analyses)
    (hp : Placed (quiet sessions threads analyses).db)
    (hag : Agree toLegacyPresentation analyses threads) (es : List Event) :
    Always step (Agrees toLegacyPresentation) (quiet sessions threads analyses) es ↔
      Guarded step StartedLast (quiet sessions threads analyses) es := by
  have hinit : Kept (quiet sessions threads analyses) := kept_quiet sessions ht ha hp
  constructor
  · refine guarded_of_always (I := Kept) (fun _ _ _ h ht => kept_step h ht) ?_ hinit
    intro s e t h hs ht hs'
    exact (ordered_step h ((agrees_iff h).mp hs) ht).mp ((agrees_iff (kept_step h ht)).mp hs')
  · intro hg
    refine (always_of_guarded (G := StartedLast) (I := fun s => Kept s ∧ Agrees toLegacyPresentation s)
      (fun s e t h hok ht => ?_) ⟨hinit, hag⟩ hg).mono fun _ h => h.2
    have ht' := kept_step h.1 ht
    exact ⟨ht', (agrees_iff ht').mpr ((ordered_step h.1 ((agrees_iff h.1).mp h.2) ht).mpr hok)⟩

/-! ### Examples -/

instance (s : State) : ∀ e, Decidable (StartedLast s e)
  | .commit a => inferInstanceAs (Decidable (∀ r ∈ stored s a, ∀ y ∈ s.db.analyses.committed, _))
  | .begin .. | .close .. | .step .. | .rollback .. => isTrue trivial

/-- Transaction `a` starts at `now`, continues the thread and stores its analysis. -/
def continues (a : ℕ) (analysisId : Uuid) : List Event := statements a 4 0 analysisId ++ [.commit a]

theorem placed_start : Placed start.db := by simp [Placed, start, quiet, Table.ofRows]

theorem agree_start : Agree (fun json => json) [] [thread] :=
  agree_of_ordered (by simp [OneSession]) (by simp [Ordered])

/-- One analysis after the other. -/
theorem agrees_serial : Always step (Agrees fun json => json) start
    (.begin 0 (request .auto 1) :: continues 0 20 ++
      .begin 1 (request .auto 2) :: continues 1 21) :=
  (agrees_iff_startedLast (fun json => json) (by simp [DistinctKeys]) distinctKeys_nil placed_start
    agree_start _).mpr (by decide)

/-- Transaction 0 starts first, and its provider answers after transaction 1 has committed. -/
def overtaken : List Event :=
  [.begin 0 (request .auto 1), .begin 1 (request .auto 2)] ++ continues 1 21 ++ continues 0 20

/-- The flags of the last items of the groups. -/
def lastFlags (s : State) : List (Option Bool) :=
  (getSessionAnalysisHistory (fun json => json) s.db.analyses.committed s.db.threads.committed
    7).threads.map fun group => group.analyses.getLast?.map SessionAnalysisItem.isLatest

theorem run_overtaken : (run step start overtaken).map lastFlags = some [some false] := by
  decide

/-- The history ends with a row that is not the latest one. -/
theorem history_disagrees : ¬ ∀ sessions threads analyses, DistinctKeys threads →
    DistinctKeys analyses → Placed (quiet sessions threads analyses).db →
      Agree (fun json => json) analyses threads →
        ∀ es, Always step (Agrees fun json => json) (quiet sessions threads analyses) es := by
  intro h
  have hal := h [session] [thread] [] (by simp [DistinctKeys]) distinctKeys_nil placed_start
    agree_start overtaken
  obtain ⟨s, hs, hflags⟩ := Option.map_eq_some_iff.mp run_overtaken
  obtain ⟨group, hgroup, hflag⟩ := List.mem_map.mp (hflags ▸ List.mem_singleton_self (some false))
  obtain ⟨last, hlast, htrue, -⟩ := hal.of_run hs _ _ (List.Perm.refl _) (List.Perm.refl _) 7 group
    hgroup
  rw [Option.mem_def.mp hlast, Option.map_some, htrue] at hflag
  cases hflag

end History

end LiberNovus.Analysis

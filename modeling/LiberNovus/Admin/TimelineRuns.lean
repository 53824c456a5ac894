import Mathlib.Data.List.Flatten
import LiberNovus.Admin.Timeline
import LiberNovus.Integrity.Runs

/-! The timelines of the admin console over whole runs. Jobs are rewritten while they are executed,
and analyses when others follow; the time, the type and the id of an event come from columns that
nobody writes again.

Proved: in every run from empty tables, whatever follows a state, a timeline keeps its events, their
times and their order; new ones come in between. -/

namespace LiberNovus.Admin.Timeline

open Rows Runs Session Dialogue Analysis Identifiers Integrity LiberNovus.Runtime

/-! ### Columns that stay -/

/-- The columns of a job that its event is placed by. -/
def placeOfJob (job : AnalysisJob) : Uuid × Uuid × Time := (job.id, job.sessionId, job.createdAt)

/-- The columns of an analysis that its event is placed by. -/
def placeOfAnalysis (analysis : SessionAnalysis) : Uuid × Uuid × Time :=
  (analysis.id, analysis.sessionId, analysis.createdAt)

/-- No row is gone, and every row has its place. -/
structure Extends (db after : Database) : Prop where
  sessions : db.sessions.map DreamSession.id ⊆ after.sessions.map DreamSession.id
  dreams : db.dreams <+: after.dreams
  traces : db.traces <+: after.traces
  jobs : db.jobs.map placeOfJob <+: after.jobs.map placeOfJob
  analyses : db.analyses.map placeOfAnalysis <+: after.analyses.map placeOfAnalysis

theorem Extends.refl (db : Database) : Extends db db :=
  ⟨List.Subset.refl _, List.prefix_rfl, List.prefix_rfl, List.prefix_rfl, List.prefix_rfl⟩

theorem Extends.trans {db mid after : Database} (h : Extends db mid) (h' : Extends mid after) :
    Extends db after :=
  ⟨List.Subset.trans h.1 h'.1, h.2.trans h'.2, h.3.trans h'.3, h.4.trans h'.4, h.5.trans h'.5⟩

instance : Std.Refl Extends := ⟨.refl⟩

instance : IsTrans Database Extends := ⟨fun _ _ _ => .trans⟩

theorem map_append_prefix {ρ β : Type} {rows new after : List ρ} (place : ρ → β)
    (h : after = rows ++ new) : rows.map place <+: after.map place := by
  rw [h, List.map_append]
  exact List.prefix_append _ _

theorem map_rewrite_prefix {ρ β : Type} {f : ρ → ρ} {place : ρ → β}
    (hf : ∀ row, place (f row) = place row) (rows : List ρ) :
    rows.map place <+: (rows.map f).map place := by
  rw [map_column hf]

theorem extends_rewriteJobs {db : Database} {f : AnalysisJob → AnalysisJob}
    (hf : ∀ row, placeOfJob (f row) = placeOfJob row) :
    Extends db { db with jobs := db.jobs.map f } :=
  { Extends.refl db with jobs := map_rewrite_prefix hf db.jobs }

theorem permits_extends : Writes.Permits (fun _ => True) Extends where
  others db _ _ _ := { Extends.refl db with }
  flags db f hf := { Extends.refl db with
    analyses := map_rewrite_prefix (fun row => by rcases hf row with h | h <;> rw [h]; rfl) _ }
  stored db _ _ := { Extends.refl db with analyses := map_append_prefix placeOfAnalysis rfl }
  finished db jobId fin := by
    refine extends_rewriteJobs fun row => ?_
    split
    · cases fin <;> rfl
    · rfl

theorem extends_acquire (db : Database) (limit : ℤ) (lockedBy : String) (now : Time)
    (stale : Option ℤ) (configured : ℤ) : Extends db { db with
      jobs := (acquireAvailableJobs db.jobs limit lockedBy now stale configured fun _ => false).2 } := by
  unfold acquireAvailableJobs
  split
  · exact .refl db
  · have hrecovered : Extends db { db with jobs := (recoverStaleRunningJobs db.jobs now
        (staleSeconds stale configured) fun _ => false) } := by
      refine extends_rewriteJobs fun row => ?_
      split <;> rfl
    refine hrecovered.trans (extends_rewriteJobs fun row => ?_)
    split <;> rfl

/-! ### Runs -/

section Runs

variable [CharTable] {settings : Settings} {db after : Database}

theorem extends_operation {e : Journal.Event} (ht : Journal.step settings db e = some after) :
    Extends db after := by
  cases e with
  | message telegramId text evaluation draws dialogue =>
    simp only [Journal.step, Option.ite_none_right_eq_some] at ht
    obtain ⟨-, ht⟩ := ht
    split at ht <;> cases ht
    · next hok =>
      have hintake := intake_of_message hok
      obtain ⟨_, hdreams, -⟩ := hintake.dreams
      obtain ⟨_, hjobs, -⟩ := hintake.jobs
      obtain ⟨_, htraces, -⟩ := hintake.traces
      refine ⟨hintake.sessions, ⟨_, hdreams.symm⟩, ⟨_, htraces.symm⟩, map_append_prefix _ hjobs, ?_⟩
      rw [hintake.analyses]
    · exact .refl db
  | acquire limit lockedBy now stale configured =>
    cases ht
    exact extends_acquire db limit lockedBy now stale configured
  | execute env deliver job =>
    simp only [Journal.step, Option.ite_none_right_eq_some, Option.some.injEq] at ht
    obtain ⟨-, rfl⟩ := ht
    exact Writes.rel_execute permits_extends (fun _ _ => rfl) (fun _ _ _ => trivial) db
  | buildSummary sessionId id createdAt =>
    simp only [Journal.step] at ht
    split at ht <;> cases ht <;> exact { Extends.refl db with }
  | analyse env sessionId mode =>
    cases ht
    exact Writes.rel_analyse permits_extends (fun _ _ => rfl) (fun _ _ _ => trivial) mode db

theorem extends_step {e : Integrity.Event} (h : Sound db)
    (ht : Integrity.step settings db e = some after) :
    Extends db after := by
  cases e with
  | operation e => exact extends_operation ht
  | analyzeAsync sessionId id mode now =>
    simp only [Integrity.step] at ht
    split at ht <;> cases ht
    · next hok =>
      obtain ⟨-, rfl⟩ := analyzeAsync_cases hok
      exact { Extends.refl db with jobs := map_append_prefix placeOfJob rfl }
    · exact .refl db
  | cleanup execute =>
    cases ht
    rw [h.spared execute]
    exact .refl db

end Runs

/-! ### Timelines -/

section Timelines

variable {db after : Database} {sessionId : Uuid}

/-- A timeline keeps its events, each with its time, its type and its id, in their order. -/
def Keeps (db after : Database) : Prop :=
  ∀ sessionId response, buildAdminEvents sessionId db = some response →
    ∃ response', buildAdminEvents sessionId after = some response' ∧
      (response.events.map EventView.sortKey).Sublist (response'.events.map EventView.sortKey)

/-- The keys of rows with one event each. -/
theorem subperm_sorted {ρ β κ : Type} {rows rows' : List ρ} {place : ρ → β} {p : ρ → Bool}
    {sortKey : ρ → κ} (q : β → Bool) (keyOf : β → κ) (r : ρ → ρ → Prop) [DecidableRel r]
    (h : rows.map place <+: rows'.map place) (hp : ∀ row, p row = q (place row))
    (hkey : ∀ row, sortKey row = keyOf (place row)) :
    (((rows.filter p).insertionSort r).map sortKey).Subperm
      (((rows'.filter p).insertionSort r).map sortKey) := by
  have hkeys : ∀ rows : List ρ, (rows.filter p).map sortKey = ((rows.map place).filter q).map keyOf := by
    intro rows
    rw [List.filter_map, List.map_map]
    simp only [funext hp, funext hkey]
    rfl
  have hsub : ((rows.filter p).map sortKey).Sublist ((rows'.filter p).map sortKey) := by
    rw [hkeys, hkeys]
    exact (h.sublist.filter q).map keyOf
  have hsort : ∀ rows : List ρ, ((rows.insertionSort r).map sortKey).Perm (rows.map sortKey) :=
    fun rows => (List.perm_insertionSort r rows).map sortKey
  exact (hsort _).subperm.trans (hsub.subperm.trans (hsort _).symm.subperm)

theorem keys_traceEvents (dreams dreams' : List Dream) (trace : DialoguePolicyTrace) :
    (traceEvents sessionId dreams trace).map EventView.sortKey =
      (traceEvents sessionId dreams' trace).map EventView.sortKey := rfl

theorem subperm_traces {traces traces' : List DialoguePolicyTrace} (h : traces <+: traces')
    (dreams dreams' : List Dream) :
    (((sessionPolicyTraces sessionId traces).flatMap (traceEvents sessionId dreams)).map
      EventView.sortKey).Subperm
      (((sessionPolicyTraces sessionId traces').flatMap (traceEvents sessionId dreams')).map
        EventView.sortKey) := by
  simp only [List.map_flatMap, keys_traceEvents dreams dreams']
  have hsort : ∀ traces : List DialoguePolicyTrace, (sessionPolicyTraces sessionId traces).Perm
      (traces.filter fun trace => trace.sessionId = some sessionId) :=
    fun _ => List.perm_insertionSort _ _
  have hsub := (h.sublist.filter fun trace => trace.sessionId = some sessionId).flatMap
    fun trace => (traceEvents sessionId dreams' trace).map EventView.sortKey
  exact ((hsort _).flatMap_right _).subperm.trans
    (hsub.subperm.trans ((hsort _).flatMap_right _).symm.subperm)

/-- The key of an event, from the columns that place it. -/
def keyOfPlace (type : AdminEventType) (kind : String) (place : Uuid × Uuid × Time) :
    Time ×ₗ ℕ ×ₗ String := toLex (place.2.2, toLex (type.order, kind ++ ":" ++ uuidText place.1))

theorem subperm_events (h : Extends db after) {session session' : DreamSession}
    (hid : session.id = session'.id) :
    ((events db session).map EventView.sortKey).Subperm
      ((events after session').map EventView.sortKey) := by
  simp only [events, hid, List.map_append, List.map_map]
  refine (((subperm_traces h.traces _ _).append ?_).append ?_).append ?_
  · have hdreams : db.dreams.map id <+: after.dreams.map id := by simpa using h.dreams
    exact subperm_sorted (fun dream => dream.sessionId = session'.id)
      (fun dream => (dreamEvent session'.id dream).sortKey) _ hdreams (fun _ => rfl) fun _ => rfl
  · exact subperm_sorted (fun place => place.2.1 = session'.id) (keyOfPlace .jobEnqueued "job") _ h.jobs
      (fun _ => rfl) fun _ => rfl
  · exact subperm_sorted (fun place => place.2.1 = session'.id)
      (keyOfPlace .reflectionReady "analysis") _ h.analyses (fun _ => rfl) fun _ => rfl

theorem keeps_of_extends (h : Extends db after) : Keeps db after := by
  intro sessionId response hresponse
  unfold buildAdminEvents at hresponse
  split at hresponse <;> cases hresponse
  next session hsession =>
  have hkey : sessionId ∈ after.sessions.map DreamSession.id :=
    h.sessions (List.mem_map.mpr ⟨session, mem_of_get hsession, key_of_get hsession⟩)
  obtain ⟨session', hsession'⟩ : ∃ session', get after.sessions sessionId = some session' :=
    Option.ne_none_iff_exists'.mp fun hnone => get_eq_none.mp hnone hkey
  have hid : session.id = session'.id := (key_of_get hsession).trans (key_of_get hsession').symm
  have hsorted : ∀ events : List EventView,
      ((events.insertionSort EventView.Before).map EventView.sortKey).Pairwise (· ≤ ·) :=
    fun events => List.pairwise_map.mpr (List.pairwise_insertionSort EventView.Before events)
  have hperm : ∀ events : List EventView, ((events.insertionSort EventView.Before).map
      EventView.sortKey).Perm (events.map EventView.sortKey) :=
    fun events => (List.perm_insertionSort _ events).map _
  refine ⟨⟨sessionId, (events after session').insertionSort EventView.Before⟩, ?_, ?_⟩
  · rw [buildAdminEvents, hsession']
  · exact List.sublist_of_subperm_of_pairwise ((hperm _).subperm.trans
      ((subperm_events h hid).trans (hperm _).symm.subperm)) (hsorted _) (hsorted _)

/-- In every run from empty tables, whatever follows: no timeline loses an event or reorders its
events. -/
theorem timeline_keeps [CharTable] (settings : Settings) (es : List Integrity.Event) :
    Always (Integrity.step settings)
      (fun db => ∀ fs, Always (Integrity.step settings) (Keeps db) db fs)
      Database.empty es := by
  have hsound : Always (Integrity.step settings) Sound Database.empty es :=
    always_of_step (fun _ _ _ h ht => sound_step h ht) sound_empty es
  refine hsound.mono fun db hdb fs => ?_
  have hextends :
      Always (Integrity.step settings) (fun after => Sound after ∧ Extends db after) db fs :=
    always_of_step (fun _ _ _ h ht => ⟨sound_step h.1 ht, h.2.trans (extends_step h.1 ht)⟩)
      ⟨hdb, .refl db⟩ fs
  exact hextends.mono fun _ h => keeps_of_extends h.2

end Timelines

end LiberNovus.Admin.Timeline

import Mathlib.Data.List.Range
import LiberNovus.Foundation.Ordering
import LiberNovus.Foundation.Runs
import LiberNovus.Analysis.Persistence

/-! Any number of concurrent transactions that assemble and persist an analysis,
and the continuation indices they commit.

Proved: from a state in which the indices of every thread are `0, …, n - 1`, a run
keeps them so exactly when no transaction commits an analysis of a thread that got
another analysis since its `COUNT`. -/

namespace LiberNovus.Analysis.Continuation

open Rows ReadCommitted Runs

/-- The open transactions. `overtaken` records that another transaction committed
an analysis of the same thread after the transaction's `COUNT`. -/
structure State where
  db : Tables ℕ
  txs : ℕ → Option Persist
  overtaken : ℕ → Bool

inductive Event where
  | begin (a : ℕ) (prepared : SessionAnalysisPrepareResult) (jobId : Option Uuid) (now : Time)
  | step (a : ℕ) (id : Uuid) (now : Time)
  | commit (a : ℕ)
  | rollback (a : ℕ)
  deriving DecidableEq

/-- Transaction `b` has counted the analyses of the thread and assembled its row. -/
def Counted (s : State) (threadId : Uuid) (b : ℕ) : Prop :=
  ∃ x ∈ s.txs b, ∃ r ∈ x.phase.row, r.threadId = threadId

instance (s : State) (threadId : Uuid) (b : ℕ) : Decidable (Counted s threadId b) :=
  inferInstanceAs (Decidable (∃ _ ∈ _, ∃ _ ∈ _, _))

/-- One event. A statement that has to wait is not enabled; a transaction that
failed, or that anything else interrupts, is rolled back. -/
def step (s : State) : Event → Option State
  | .begin a prepared jobId now =>
    if s.txs a = none then
      some { s with
        txs := Function.update s.txs a (some ⟨prepared, jobId, now, .building⟩)
        overtaken := Function.update s.overtaken a false }
    else none
  | .step a id now => do
    let x ← s.txs a
    let (db, x') ← x.step s.db a id now
    some { s with db := db, txs := Function.update s.txs a (some x') }
  | .commit a => do
    let x ← s.txs a
    match x.phase with
    | .persisted analysis =>
      some {
        db := ⟨s.db.threads.commit a, s.db.analyses.commit a⟩
        txs := Function.update s.txs a none
        overtaken := fun b => s.overtaken b || decide (Counted s analysis.threadId b) }
    | _ => none
  | .rollback a =>
    if s.txs a = none then none
    else some { s with
      db := ⟨s.db.threads.rollback a, s.db.analyses.rollback a⟩
      txs := Function.update s.txs a none }

def committed (s : State) : List SessionAnalysis := s.db.analyses.committed

/-- The committed analyses of every thread have the indices `0, …, n - 1`. -/
def Dense (s : State) : Prop :=
  ∀ threadId, (indices (committed s) threadId).Perm
    (List.range (nextContinuationIndex (committed s) threadId))

/-- A transaction that commits has not been overtaken since its `COUNT`. -/
def NotOvertaken (s : State) : Event → Prop
  | .commit a => s.overtaken a = false
  | _ => True

def quiet (threads : List AnalysisThread) (analyses : List SessionAnalysis) : State :=
  ⟨⟨Table.ofRows threads, Table.ofRows analyses⟩, fun _ => none, fun _ => false⟩

/-! ### The invariant -/

def stored (s : State) (a : ℕ) : Option SessionAnalysis := (s.txs a).bind (·.phase.stored)

/-- The index of an assembled row against the number of committed analyses: equal
until the transaction is overtaken, too small from then on. -/
def Placed (count : ℕ) (overtaken : Bool) (index : ℕ) : Prop :=
  if overtaken then index < count else index = count

structure Wf (s : State) : Prop where
  holds : Holds s.db.analyses (stored s)
  placed : ∀ a x r, s.txs a = some x → x.phase.row = some r →
    Placed (nextContinuationIndex (committed s) r.threadId) (s.overtaken a) r.continuationIndex
  fresh : ∀ a x, s.txs a = some x → x.phase = .building → s.overtaken a = false

theorem stored_update (s : State) (a : ℕ) (x : Option Persist) :
    (fun b => ((Function.update s.txs a x) b).bind (·.phase.stored)) =
      Function.update (stored s) a (x.bind (·.phase.stored)) :=
  Function.comp_update (fun o : Option Persist => o.bind (·.phase.stored)) s.txs a x

theorem wf_quiet (threads : List AnalysisThread) {analyses : List SessionAnalysis}
    (h : DistinctKeys analyses) : Wf (quiet threads analyses) :=
  ⟨holds_ofRows h, by simp [quiet], by simp [quiet]⟩

theorem countP_eq_map (analyses : List SessionAnalysis) (threadId : Uuid) :
    nextContinuationIndex analyses threadId =
      (analyses.map SessionAnalysis.place).countP fun p => p.1 = threadId := by
  rw [nextContinuationIndex, List.countP_map]
  rfl

/-- A transaction that has stored nothing counts the committed analyses. -/
theorem count_view {s : State} (hw : Wf s) {a : ℕ} (hs : stored s a = none) (threadId : Uuid) :
    nextContinuationIndex (s.db.analyses.view a) threadId =
      nextContinuationIndex (committed s) threadId := by
  rw [countP_eq_map, hw.holds.view_map (fun _ _ h => h.place), hs, countP_eq_map]
  simp [committed]

/-- Committing appends the row to the indices of its thread. -/
theorem indices_commit {s : State} (hw : Wf s) {a : ℕ} {r : SessionAnalysis}
    (hs : stored s a = some r) (threadId : Uuid) :
    indices (s.db.analyses.commit a).committed threadId =
      indices (committed s) threadId ++
        if r.threadId = threadId then [r.continuationIndex] else [] := by
  rw [indices_eq_place, Table.commit_committed, hw.holds.view_map (fun _ _ h => h.place), hs,
    indices_eq_place]
  by_cases h : r.threadId = threadId <;> simp [SessionAnalysis.place, committed, h]

theorem count_commit {s : State} (hw : Wf s) {a : ℕ} {r : SessionAnalysis}
    (hs : stored s a = some r) (threadId : Uuid) :
    nextContinuationIndex (s.db.analyses.commit a).committed threadId =
      nextContinuationIndex (committed s) threadId + if r.threadId = threadId then 1 else 0 := by
  rw [← length_indices, indices_commit hw hs, List.length_append, length_indices]
  split <;> rfl

theorem wf_step {s t : State} {e : Event} (hw : Wf s) (ht : step s e = some t) : Wf t := by
  cases e with
  | begin a prepared jobId now =>
    simp only [step, Option.ite_none_right_eq_some, Option.some.injEq] at ht
    obtain ⟨hn, rfl⟩ := ht
    have hs : stored s a = none := by simp [stored, hn]
    have hkeep : Function.update (stored s) a none = stored s := by rw [← hs, Function.update_eq_self]
    refine ⟨?_, ?_, ?_⟩
    · unfold stored
      rw [stored_update]
      simpa [Phase.stored, hkeep] using hw.holds
    · intro b x r hx hr
      by_cases hb : b = a
      · subst hb
        obtain rfl : _ = x := by simpa using hx
        cases hr
      · simp only [Function.update_of_ne hb] at hx ⊢
        exact hw.placed b x r hx hr
    · intro b x hx hp
      by_cases hb : b = a
      · subst hb; simp
      · simp only [Function.update_of_ne hb] at hx ⊢
        exact hw.fresh b x hx hp
  | step a id now =>
    simp only [step, Option.bind_eq_bind, Option.bind_eq_some_iff, Option.some.injEq, Prod.exists]
      at ht
    obtain ⟨x, hx, db', x', hstep, rfl⟩ := ht
    have he := Persist.effect_of_step hstep
    have hs : stored s a = x.phase.stored := by simp [stored, hx]
    refine ⟨?_, ?_, ?_⟩
    · unfold stored
      rw [stored_update]
      exact hw.holds.effect hs he
    · intro b y r hy hr
      simp only [committed, he.committed]
      by_cases hb : b = a
      · subst hb
        obtain rfl : x' = y := by simpa using hy
        rcases he.row hr with hr | ⟨hp, rfl⟩
        · exact hw.placed b x r hx hr
        · rw [hw.fresh b x hx hp]
          exact count_view hw (by rw [hs, hp]; rfl) _
      · simp only [Function.update_of_ne hb] at hy
        exact hw.placed b y r hy hr
    · intro b y hy hp
      by_cases hb : b = a
      · subst hb
        obtain rfl : x' = y := by simpa using hy
        exact absurd hp he.counted
      · simp only [Function.update_of_ne hb] at hy
        exact hw.fresh b y hy hp
  | commit a =>
    simp only [step, Option.bind_eq_bind, Option.bind_eq_some_iff] at ht
    obtain ⟨x, hx, ht⟩ := ht
    split at ht <;> cases ht
    next analysis hp =>
    have hs : stored s a = some analysis := by simp [stored, hx, hp, Phase.stored]
    refine ⟨?_, ?_, ?_⟩
    · unfold stored
      rw [stored_update]
      exact hw.holds.commit a
    · intro b y r hy hr
      have hb : b ≠ a := by
        rintro rfl
        simp at hy
      simp only [Function.update_of_ne hb] at hy
      have hpl := hw.placed b y r hy hr
      have hcount : decide (Counted s analysis.threadId b) = decide (r.threadId = analysis.threadId) := by
        simp [Counted, hy, hr]
      simp only [committed, count_commit hw hs, hcount, Placed] at hpl ⊢
      by_cases ht : r.threadId = analysis.threadId
      · cases ho : s.overtaken b <;> simp_all
        omega
      · simpa [ht, Ne.symm ht] using hpl
    · intro b y hy hp'
      have hb : b ≠ a := by
        rintro rfl
        simp at hy
      simp only [Function.update_of_ne hb] at hy
      simp [hw.fresh b y hy hp', Counted, hy, hp', Phase.row]
  | rollback a =>
    simp only [step, Option.ite_none_left_eq_some, Option.some.injEq] at ht
    obtain ⟨-, rfl⟩ := ht
    refine ⟨?_, ?_, ?_⟩
    · unfold stored
      rw [stored_update]
      exact hw.holds.rollback a
    · intro b y r hy hr
      have hb : b ≠ a := by
        rintro rfl
        simp at hy
      simp only [Function.update_of_ne hb] at hy
      exact hw.placed b y r hy hr
    · intro b y hy hp
      have hb : b ≠ a := by
        rintro rfl
        simp at hy
      simp only [Function.update_of_ne hb] at hy
      exact hw.fresh b y hy hp

/-! ### Dense indices -/

/-- The commit of an analysis keeps the indices dense exactly when its index is the
number of analyses before it. -/
theorem dense_commit {s t : State} (hw : Wf s) (hd : Dense s) {a : ℕ} (ht : step s (.commit a) = some t) :
    Dense t ↔ s.overtaken a = false := by
  simp only [step, Option.bind_eq_bind, Option.bind_eq_some_iff] at ht
  obtain ⟨x, hx, ht⟩ := ht
  split at ht <;> cases ht
  next analysis hp =>
  have hs : stored s a = some analysis := by simp [stored, hx, hp, Phase.stored]
  have hpl := hw.placed a x analysis hx (by rw [hp]; rfl)
  have hdense : ∀ threadId, (indices (s.db.analyses.commit a).committed threadId).Perm
      (List.range (nextContinuationIndex (s.db.analyses.commit a).committed threadId)) ↔
      (analysis.threadId = threadId →
        analysis.continuationIndex = nextContinuationIndex (committed s) threadId) := by
    intro threadId
    rw [indices_commit hw hs, count_commit hw hs]
    by_cases h : analysis.threadId = threadId
    · simpa [h] using Ordering.perm_range_succ (hd threadId)
    · simpa [h] using hd threadId
  have hiff : analysis.continuationIndex = nextContinuationIndex (committed s) analysis.threadId ↔
      s.overtaken a = false := by
    unfold Placed at hpl
    cases ho : s.overtaken a <;> simp_all
    omega
  rw [← hiff]
  constructor
  · intro h
    exact (hdense _).mp (h _) rfl
  · rintro h threadId
    exact (hdense _).mpr (by rintro rfl; exact h)

theorem dense_step {s t : State} {e : Event} (hw : Wf s) (hd : Dense s) (ht : step s e = some t) :
    Dense t ↔ NotOvertaken s e := by
  cases e with
  | commit a => exact dense_commit hw hd ht
  | begin a prepared jobId now =>
    simp only [step, Option.ite_none_right_eq_some, Option.some.injEq] at ht
    obtain ⟨-, rfl⟩ := ht
    exact iff_of_true hd trivial
  | step a id now =>
    simp only [step, Option.bind_eq_bind, Option.bind_eq_some_iff, Option.some.injEq, Prod.exists]
      at ht
    obtain ⟨x, -, db', x', hstep, rfl⟩ := ht
    refine iff_of_true ?_ trivial
    simpa only [Dense, committed, (Persist.effect_of_step hstep).committed] using hd
  | rollback a =>
    simp only [step, Option.ite_none_left_eq_some, Option.some.injEq] at ht
    obtain ⟨-, rfl⟩ := ht
    exact iff_of_true hd trivial

/-- Along every run the indices stay dense exactly as long as no transaction commits
an analysis of a thread that was overtaken since its `COUNT`. -/
theorem dense_iff_notOvertaken (threads : List AnalysisThread) (analyses : List SessionAnalysis)
    (hu : DistinctKeys analyses) (hd : Dense (quiet threads analyses)) (es : List Event) :
    Always step Dense (quiet threads analyses) es ↔
      Guarded step NotOvertaken (quiet threads analyses) es := by
  constructor
  · exact guarded_of_always (I := Wf) (fun _ _ _ hw ht => wf_step hw ht)
      (fun _ _ _ hw hd ht hd' => (dense_step hw hd ht).mp hd') (wf_quiet threads hu)
  · intro hg
    exact (always_of_guarded (G := NotOvertaken) (I := fun s => Wf s ∧ Dense s)
      (fun _ _ _ hi hok ht => ⟨wf_step hi.1 ht, (dense_step hi.1 hi.2 ht).mpr hok⟩)
      ⟨wf_quiet threads hu, hd⟩ hg).mono fun _ hi => hi.2

/-! ### Examples -/

def thread : AnalysisThread := ⟨1, 7, .active, 0, none, none⟩

def prepared : SessionAnalysisPrepareResult :=
  ⟨⟨7, 3, "mock", "mock-v1", "p1", "dream_v1", "", none⟩, thread⟩

def whole (a : ℕ) (id : Uuid) : List Event :=
  .begin a prepared none 0 :: List.replicate 5 (.step a id 0) ++ [.commit a]

instance (s : State) : ∀ e, Decidable (NotOvertaken s e)
  | .commit a => inferInstanceAs (Decidable (s.overtaken a = false))
  | .begin .. | .step .. | .rollback .. => isTrue trivial

theorem dense_quiet (threads : List AnalysisThread) : Dense (quiet threads []) := by
  simp [Dense, quiet, committed, Table.ofRows, indices, nextContinuationIndex]

/-- Two transactions one after the other commit the indices 0 and 1. -/
theorem dense_serial :
    Always step Dense (quiet [thread] []) (whole 0 10 ++ whole 1 11) :=
  (dense_iff_notOvertaken [thread] [] distinctKeys_nil (dense_quiet _) _).mpr (by decide)

/-- The second transaction counts before the first commits, and clears the latest
flag after it: nothing stops it, and both rows have index 0. -/
def overlapping : List Event :=
  [.begin 0 prepared none 0, .begin 1 prepared none 0, .step 0 10 0, .step 1 11 0] ++
    List.replicate 4 (.step 0 10 0) ++ [.commit 0] ++ List.replicate 4 (.step 1 11 0) ++ [.commit 1]

theorem run_overlapping :
    (run step (quiet [thread] []) overlapping).map (fun s => indices (committed s) 1) =
      some [0, 0] := by
  decide

theorem indices_collide :
    ¬ ∀ threads analyses, DistinctKeys analyses → Dense (quiet threads analyses) →
      ∀ es, Always step Dense (quiet threads analyses) es := by
  intro h
  obtain ⟨t, ht, hi⟩ := Option.map_eq_some_iff.mp run_overlapping
  have hd := (h [thread] [] distinctKeys_nil (dense_quiet _) overlapping).of_run ht 1
  rw [← length_indices, hi] at hd
  exact absurd hd.nodup_iff (by decide)

end LiberNovus.Analysis.Continuation

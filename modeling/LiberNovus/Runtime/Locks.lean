import LiberNovus.Runtime.Worker

/-! What polls and executions hold. A poll locks the stale and the queued rows it
selects, an execution the row of its job from its `UPDATE` to its end. -/

namespace LiberNovus.Runtime

open Rows ReadCommitted Runs Analysis
open Queue (Finish)

/-! ### The rows that a poll locks -/

section Poll

variable {T : Table TxId Uuid Empty AnalysisJob} {poll : Poll}

theorem mem_staleKeys {k : Uuid} (h : k ∈ staleKeys T poll) : T.Free (.poll poll.id) k ∧
    ∃ job ∈ T.view (.poll poll.id), job.id = k ∧
      job.Stale (poll.acquiredAt - seconds poll.worker.staleTimeoutSeconds) := by
  obtain ⟨job, hj, rfl⟩ := List.mem_map.mp h
  simp only [List.mem_filter, decide_eq_true_eq] at hj
  exact ⟨hj.2.2, job, hj.1, rfl, hj.2.1⟩

theorem mem_selected {job : AnalysisJob} (h : job ∈ selected T poll) :
    T.Free (.poll poll.id) job.id ∧ job ∈ T.view (.poll poll.id) ∧ job.status = .queued := by
  obtain ⟨hv, hav, hl⟩ := mem_selectAvailable h
  exact ⟨by simpa using hl, hv, hav.1⟩

theorem selected_free : ∀ k ∈ (selected T poll).map AnalysisJob.id, T.Free (.poll poll.id) k := by
  intro k hk
  obtain ⟨job, hj, rfl⟩ := List.mem_map.mp hk
  exact (mem_selected hj).1

end Poll

/-! ### The table of jobs -/

section Jobs

variable {s t : State} {e : Event}

/-- The table of jobs after an event. -/
theorem Effect.jobs_wf (h : Effect s e t) (hc : s.jobs.Consistent)
    (hi : ∀ tx, s.jobs.inserts tx = []) :
    t.jobs.Consistent ∧ ∀ tx, t.jobs.inserts tx = [] := by
  have hroll : ∀ a tx, (s.jobs.rollback a).inserts tx = [] := by
    intro a tx
    simp only [Table.rollback]
    split
    · rfl
    · exact hi tx
  have hall : ∀ {p : ℕ} {keys : List Uuid} {q : AnalysisJob → Prop} [DecidablePred q]
      {f : AnalysisJob → AnalysisJob} (tx : TxId),
      (s.jobs.writeAll (.poll p) keys q f).inserts tx = [] := by
    intro p keys q _ f tx
    by_cases htx : tx = .poll p
    · subst htx
      exact Table.writeAll_inserts_of_nil (hi _)
    · rw [Table.writeAll_inserts_of_ne htx, hi]
  cases h with
  | create hn =>
    refine ⟨⟨distinctKeys_append_singleton hc.unique hn, ?_, ?_, hc.uniqueInserts⟩, hi⟩
    · intro a k r hr
      obtain ⟨hl, hk, hrow⟩ := hc.locked a k r hr
      refine ⟨hl, hk, ?_⟩
      unfold Table.row at hrow ⊢
      obtain ⟨c, hc⟩ := Option.ne_none_iff_exists'.mp hrow
      rw [get_append, hc, Option.some_or]
      simp
    · intro a r hr
      rw [hi] at hr
      cases hr
  | recover poll =>
    exact ⟨hc.writeAll (fun _ => rfl) fun k hk => (mem_staleKeys hk).1, hall⟩
  | select poll => exact ⟨hc.writeAll (fun _ => rfl) selected_free, hall⟩
  | acquire => exact ⟨hc.commit _, hroll _⟩
  | stop => exact ⟨hc.rollback _, hroll _⟩
  | @update a x fin loaded _ _ hfree =>
    refine ⟨hc.write (fun _ => rfl) hfree, fun tx => ?_⟩
    by_cases htx : tx = .exec a
    · subst htx
      unfold finishStep
      rcases Table.write_inserts (T := s.jobs) (a := .exec a) (k := x.job.id)
        (flushed loaded (fin.write loaded)) with he | he <;> rw [he, hi]
      rfl
    · rw [finishStep, Table.write_inserts_of_ne htx, hi]
  | commit => exact ⟨hc.commit _, hroll _⟩
  | abort => exact ⟨hc.rollback _, hroll _⟩
  | _ => exact ⟨hc, hi⟩

/-- A committed row never disappears. -/
theorem Effect.row_ne_none (h : Effect s e t) (hc : s.jobs.Consistent) {k : Uuid}
    (hk : s.jobs.row k ≠ none) : t.jobs.row k ≠ none := by
  obtain ⟨c, hrow⟩ := Option.ne_none_iff_exists'.mp hk
  cases h with
  | create =>
    unfold Table.row at hrow ⊢
    rw [get_append, hrow, Option.some_or]
    simp
  | recover => rwa [Table.row, recoverStep, Table.writeAll_committed]
  | select => rwa [Table.row, selectStep, Table.writeAll_committed]
  | update => rwa [Table.row, finishStep, Table.write_committed]
  | acquire | commit => rw [Table.commit_row, hc.seen_of_row hrow]; simp
  | _ => exact hk

end Jobs

/-! ### The rows that executions hold -/

/-- An execution has a pending version of the row of its job, and of no other, exactly
from its `UPDATE` on; before that it has read the row and found it running. -/
structure Held (s : State) : Prop where
  owned : ∀ a k r, s.jobs.updates (.exec a) k = some r →
    ∃ x fin, get s.execs a = some x ∧ x.job.id = k ∧ x.stage = .returned fin ∧ r.status = fin.status
  written : ∀ a x fin, get s.execs a = some x → x.stage = .returned fin →
    ∃ r, s.jobs.updates (.exec a) x.job.id = some r
  loaded : ∀ a x fin row, get s.execs a = some x → x.stage = .checked fin row →
    row.status = .running ∧ s.jobs.row x.job.id ≠ none

section Held

variable {s t : State} {a : ℕ} {x : Exec}

/-- Events that leave the executions and their pending rows alone. -/
theorem Held.frame (h : Held s) (hx : t.execs = s.execs)
    (hu : ∀ b, t.jobs.updates (.exec b) = s.jobs.updates (.exec b))
    (hr : ∀ k, s.jobs.row k ≠ none → t.jobs.row k ≠ none) : Held t where
  owned b k r hb := by
    rw [hx]
    exact h.owned b k r (hu b ▸ hb)
  written b y fin hy hs := by
    rw [hu]
    exact h.written b y fin (hx ▸ hy) hs
  loaded b y fin row hy hs := by
    obtain ⟨hrun, hrow⟩ := h.loaded b y fin row (hx ▸ hy) hs
    exact ⟨hrun, hr _ hrow⟩

theorem Held.start (h : Held s) {p : ℕ} {job : AnalysisJob} {polls : List Poll} :
    Held { s with polls := polls, execs := s.execs ++ [⟨a, p, job, none, .thinking⟩] } := by
  have hget : ∀ b y, get (s.execs ++ [⟨a, p, job, none, .thinking⟩]) b = some y →
      get s.execs b = some y ∨ y.stage = .thinking := by
    intro b y hy
    rw [get_append] at hy
    cases hb : get s.execs b with
    | some z => exact .inl (by rwa [hb, Option.some_or] at hy)
    | none =>
      rw [hb, Option.none_or] at hy
      exact .inr (by rw [List.mem_singleton.mp (mem_of_get hy)])
  refine ⟨fun b k r hb => ?_, fun b y fin hy hs => ?_, fun b y fin row hy hs => ?_⟩
  · obtain ⟨y, fin, hy, hrest⟩ := h.owned b k r hb
    exact ⟨y, fin, by rw [get_append, hy, Option.some_or], hrest⟩
  · rcases hget b y hy with hy | hy
    · exact h.written b y fin hy hs
    · rw [hy] at hs; cases hs
  · rcases hget b y hy with hy | hy
    · exact h.loaded b y fin row hy hs
    · rw [hy] at hs; cases hs

/-- The executions after one of them has been changed. -/
theorem get_changed {f : Exec → Exec} (hf : ∀ x, (f x).id = x.id) (hx : get s.execs a = some x)
    (b : ℕ) : get (modify s.execs a f) b = if b = a then some (f x) else get s.execs b := by
  rw [get_modify hf, hx, Option.map_some]

/-- An execution moves on without a statement on the jobs. -/
theorem Held.move (h : Held s) {f : Exec → Exec} (hf : ∀ x, (f x).id = x.id ∧ (f x).job = x.job)
    (hx : get s.execs a = some x) (hs : ∀ fin, x.stage ≠ .returned fin)
    (hs' : ∀ fin, (f x).stage ≠ .returned fin)
    (hl : ∀ fin row, (f x).stage = .checked fin row →
      row.status = .running ∧ s.jobs.row x.job.id ≠ none) {db : Tables TxId} :
    Held { s with execs := modify s.execs a f, db := db } := by
  have hget := get_changed (fun x => (hf x).1) hx
  refine ⟨fun b k r hb => ?_, fun b y fin hy hst => ?_, fun b y fin row hy hst => ?_⟩
  · obtain ⟨y, fin, hy, hk, hst, hr⟩ := h.owned b k r hb
    refine ⟨y, fin, ?_, hk, hst, hr⟩
    have hba : b ≠ a := by
      rintro rfl
      rw [hx, Option.some.injEq] at hy
      exact hs fin (hy ▸ hst)
    rw [hget, if_neg hba, hy]
  · rw [hget] at hy
    split at hy
    · cases hy
      exact absurd hst (hs' fin)
    · exact h.written b y fin hy hst
  · rw [hget] at hy
    split at hy
    · cases hy
      rw [(hf x).2]
      exact hl fin row hst
    · exact h.loaded b y fin row hy hst

theorem Held.update (h : Held s) (hc : s.jobs.Consistent) {fin : Finish} {loaded : AnalysisJob}
    (hx : get s.execs a = some x) (hs : x.stage = .checked fin loaded) :
    Held { s.setExec a (.returned fin) with jobs := finishStep s.jobs a x.job.id fin loaded } := by
  obtain ⟨hrun, hrow⟩ := h.loaded a x fin loaded hx hs
  have hget := get_changed (f := fun x => { x with stage := .returned fin }) (fun _ => rfl) hx
  refine ⟨fun b k r hb => ?_, fun b y fin' hy hst => ?_, fun b y fin' row hy hst => ?_⟩
  · rcases Table.write_updates hb with hb | ⟨hba, hk, -, r₀, -, hr⟩
    · obtain ⟨y, fin', hy, hrest⟩ := h.owned b k r hb
      have hba : b ≠ a := by
        rintro rfl
        rw [hx, Option.some.injEq] at hy
        rw [← hy, hs] at hrest
        cases hrest.2.1
      exact ⟨y, fin', (hget b).trans (by rw [if_neg hba, hy]), hrest⟩
    · cases hba
      exact ⟨_, fin, (hget a).trans (if_pos rfl), hk.symm, rfl,
        by rw [hr, flushed_status fin hrun]⟩
  · replace hy := (hget b).symm.trans hy
    split at hy
    · next hb =>
      subst hb
      cases hy
      obtain ⟨c, hc'⟩ := Option.ne_none_iff_exists'.mp hrow
      unfold finishStep Table.write
      rw [hc.seen_of_row hc']
      simp [hrow]
    · next hb =>
      rw [finishStep, Table.write_updates_of_ne (by simpa using hb)]
      exact h.written b y fin' hy hst
  · replace hy := (hget b).symm.trans hy
    rw [Table.row, finishStep, Table.write_committed]
    split at hy
    · cases hy
      cases hst
    · exact h.loaded b y fin' row hy hst

/-- The end of an execution. -/
theorem Held.finish (h : Held s) {T : Table TxId Uuid Empty AnalysisJob} {db : Tables TxId}
    (hT : T.updates = (s.jobs.rollback (.exec a)).updates)
    (hr : ∀ k, s.jobs.row k ≠ none → T.row k ≠ none) :
    Held { s with jobs := T, db := db, execs := delete s.execs a } := by
  have hget : ∀ b y, get (delete s.execs a) b = some y → b ≠ a ∧ get s.execs b = some y := by
    intro b y hy
    rw [get_delete] at hy
    split at hy
    · cases hy
    · next hb => exact ⟨hb, hy⟩
  refine ⟨fun b k r hb => ?_, fun b y fin hy hs => ?_, fun b y fin row hy hs => ?_⟩
  · have hb' : (s.jobs.rollback (.exec a)).updates (.exec b) k = some r := hT ▸ hb
    obtain ⟨hne, hb'⟩ := Table.rollback_updates hb'
    obtain ⟨y, fin, hy, hrest⟩ := h.owned b k r hb'
    refine ⟨y, fin, ?_, hrest⟩
    rw [get_delete, if_neg (by rintro rfl; exact hne rfl), hy]
  · obtain ⟨hb, hy⟩ := hget b y hy
    obtain ⟨r, hr⟩ := h.written b y fin hy hs
    refine ⟨r, ?_⟩
    show T.updates (.exec b) y.job.id = some r
    rw [hT, (Table.rollback_work_of_ne (by simpa using hb)).1, hr]
  · obtain ⟨-, hy⟩ := hget b y hy
    obtain ⟨hrun, hrow⟩ := h.loaded b y fin row hy hs
    exact ⟨hrun, hr _ hrow⟩

theorem Held.setExec (h : Held s) {stage : ExecStage} (hx : get s.execs a = some x)
    (hs : ∀ fin, x.stage ≠ .returned fin) (hs' : ∀ fin, stage ≠ .returned fin)
    (hl : ∀ fin row, stage = .checked fin row →
      row.status = .running ∧ s.jobs.row x.job.id ≠ none) {db : Tables TxId} :
    Held { s.setExec a stage with db := db } :=
  h.move (f := fun x => { x with stage := stage }) (fun _ => ⟨rfl, rfl⟩) hx hs hs' hl

end Held

theorem Exec.result_stage {x : Exec} {analysis : Option SessionAnalysis}
    (h : x.result = some analysis) (fin : Finish) : x.stage ≠ .returned fin := by
  intro hs
  simp [Exec.result, hs] at h

theorem Failure.CanHappen.stage {failure : Failure} {stage : ExecStage}
    (h : failure.CanHappen stage) (fin : Finish) : stage ≠ .returned fin := by
  rintro rfl
  cases failure <;> simp [Failure.CanHappen] at h

theorem Effect.held {s t : State} {e : Event} (he : Effect s e t) (hc : s.jobs.Consistent)
    (hi : ∀ tx, s.jobs.inserts tx = []) (h : Held s) : Held t := by
  have hrow : ∀ k, s.jobs.row k ≠ none → t.jobs.row k ≠ none := fun k hk => he.row_ne_none hc hk
  cases he with
  | create | «open» | next => exact h.frame rfl (fun _ => rfl) hrow
  | recover | select =>
    exact h.frame rfl (fun b => Table.writeAll_updates_of_ne (by simp)) hrow
  | @acquire p | @stop p =>
    refine h.frame rfl (fun b => ?_) hrow
    exact (Table.rollback_work_of_ne (T := s.jobs) (a := .poll p) (b := .exec b) (by simp)).1
  | start => exact h.start
  | analyse x hx hs | statement x _ _ _ hx hs | refuse x _ hx hs =>
    exact h.setExec hx (by simp [hs]) (by simp) (by simp)
  | complete x analysis hx hr =>
    exact h.move (f := fun x => { x with
      analysis := analysis
      stage := .finishing (.markCompleted (analysis.map SessionAnalysis.threadId) _) })
      (fun _ => ⟨rfl, rfl⟩) hx (Exec.result_stage hr) (by simp) (by simp)
  | fail x hx hc => exact h.setExec hx hc.stage (by simp) (by simp)
  | check x fin row hx hs hseen hrun =>
    refine h.setExec hx (by simp [hs]) (by simp) ?_
    rintro _ _ ⟨⟩
    refine ⟨hrun, fun hn => ?_⟩
    rw [hc.seen_of_new hn, hi] at hseen
    cases hseen
  | update x fin loaded hx hs => exact h.update hc hx hs
  | commit | abort => exact h.finish rfl hrow

/-! ### The shape of a state -/

/-- Rows are only inserted by committed creations, identifiers are not shared, and
executions hold the rows they have written. -/
structure Wf (s : State) : Prop where
  consistent : s.jobs.Consistent
  noInserts : ∀ tx, s.jobs.inserts tx = []
  polls : DistinctKeys s.polls
  execs : DistinctKeys s.execs
  held : Held s

theorem wf_quiet {jobs : List AnalysisJob} (h : DistinctKeys jobs) (threads : List AnalysisThread)
    (analyses : List SessionAnalysis) : Wf (quiet jobs threads analyses) where
  consistent := Table.consistent_ofRows h
  noInserts _ := rfl
  polls := distinctKeys_nil
  execs := distinctKeys_nil
  held := ⟨by simp [quiet, Table.ofRows], by simp [quiet], by simp [quiet]⟩

section Wf

variable {s t : State} {e : Event}

theorem distinctKeys_setPoll (h : DistinctKeys s.polls) (p : ℕ) (stage : PollStage) :
    DistinctKeys (s.setPoll p stage).polls := by
  refine (distinctKeys_modify ?_).mpr h
  exact fun _ => rfl

theorem distinctKeys_setExec (h : DistinctKeys s.execs) (a : ℕ) (stage : ExecStage) :
    DistinctKeys (s.setExec a stage).execs := by
  refine (distinctKeys_modify ?_).mpr h
  exact fun _ => rfl

theorem wf_step (hw : Wf s) (he : Effect s e t) : Wf t := by
  obtain ⟨hc, hi⟩ := he.jobs_wf hw.consistent hw.noInserts
  refine ⟨hc, hi, ?_, ?_, he.held hw.consistent hw.noInserts hw.held⟩
  · cases he with
    | «open» hn => exact distinctKeys_append_singleton hw.polls hn
    | stop => exact hw.polls.sublist ((delete_sublist _ _).map _)
    | recover | select | acquire | next | start => exact distinctKeys_setPoll hw.polls _ _
    | _ => exact hw.polls
  · cases he with
    | start _ _ _ _ _ _ _ hn => exact distinctKeys_append_singleton hw.execs hn
    | commit | abort => exact hw.execs.sublist ((delete_sublist _ _).map _)
    | analyse | statement | fail | check | refuse | update => exact distinctKeys_setExec hw.execs _ _
    | complete =>
      refine (distinctKeys_modify ?_).mpr hw.execs
      exact fun _ => rfl
    | _ => exact hw.execs

/-- The row of a job on which a transaction has no pending version survives its commit. -/
theorem Wf.commit_row (hw : Wf s) {tx : TxId} {k : Uuid} (hu : s.jobs.updates tx k = none)
    (hk : s.jobs.row k ≠ none) : (s.jobs.commit tx).row k = s.jobs.row k := by
  obtain ⟨c, hc⟩ := Option.ne_none_iff_exists'.mp hk
  rw [Table.commit_row, hw.consistent.seen_of_row hc, hu, hc]
  rfl

/-- The row of a job of which a transaction has a pending version is that version after
its commit. -/
theorem Wf.commit_row_of_update (hw : Wf s) {tx : TxId} {k : Uuid} {r : AnalysisJob}
    (hu : s.jobs.updates tx k = some r) : (s.jobs.commit tx).row k = some r := by
  obtain ⟨c, hc⟩ := Option.ne_none_iff_exists'.mp (hw.consistent.locked tx k r hu).2.2
  rw [Table.commit_row, hw.consistent.seen_of_row hc, hu]
  rfl

/-- Two transactions do not have pending versions of one row. -/
theorem Wf.sole_writer (hw : Wf s) {tx tx' : TxId} {k : Uuid} {r r' : AnalysisJob}
    (hu : s.jobs.updates tx k = some r) (hu' : s.jobs.updates tx' k = some r') : tx = tx' := by
  have hl := (hw.consistent.locked tx k r hu).1
  rw [(hw.consistent.locked tx' k r' hu').1] at hl
  exact (Option.some.inj hl).symm

/-- An execution has no pending version of the row of another job. -/
theorem Wf.no_update (hw : Wf s) {a : ℕ} {x : Exec} (hx : get s.execs a = some x) {k : Uuid}
    (hk : k ≠ x.job.id) : s.jobs.updates (.exec a) k = none := by
  cases hu : s.jobs.updates (.exec a) k with
  | none => rfl
  | some r =>
    obtain ⟨y, -, hy, hid, -⟩ := hw.held.owned a k r hu
    rw [hx, Option.some.injEq] at hy
    exact absurd (hy ▸ hid).symm hk

/-- From its `UPDATE` on an execution has the new row pending. -/
theorem Wf.pending (hw : Wf s) {a : ℕ} {x : Exec} {fin : Finish} (hx : get s.execs a = some x)
    (hs : x.stage = .returned fin) :
    ∃ r, s.jobs.updates (.exec a) x.job.id = some r ∧ r.status = fin.status := by
  obtain ⟨r, hr⟩ := hw.held.written a x fin hx hs
  obtain ⟨y, fin', hy, -, hs', hst⟩ := hw.held.owned a _ r hr
  rw [hx, Option.some.injEq] at hy
  subst hy
  rw [hs, ExecStage.returned.injEq] at hs'
  exact ⟨r, hr, by rw [hst, hs']⟩

/-- An execution that has returned stays as it is until its end. -/
theorem Effect.get_returned (he : Effect s e t) {a : ℕ} {x : Exec} {fin : Finish}
    (hx : get s.execs a = some x) (hs : x.stage = .returned fin) (hc : e ≠ .commit a)
    (ha : e ≠ .abort a) : get t.execs a = some x := by
  have hother : ∀ {b y} {f : Exec → Exec}, (∀ x, (f x).id = x.id) → get s.execs b = some y →
      (∀ fin, y.stage ≠ .returned fin) → get (modify s.execs b f) a = some x := by
    intro b y f hf hy hne
    have hab : a ≠ b := by
      rintro rfl
      rw [hx, Option.some.injEq] at hy
      exact hne fin (hy ▸ hs)
    rw [get_changed hf hy, if_neg hab, hx]
  cases he with
  | start =>
    show get (s.execs ++ _) a = some x
    rw [get_append, hx, Option.some_or]
  | analyse y hy hst | statement y _ _ _ hy hst | check y _ _ hy hst | refuse y _ hy hst
    | update y _ _ hy hst => exact hother (fun _ => rfl) hy (by simp [hst])
  | complete y _ hy hr => exact hother (fun _ => rfl) hy (Exec.result_stage hr)
  | fail y hy hf => exact hother (fun _ => rfl) hy hf.stage
  | @commit b =>
    have hab : a ≠ b := fun h => hc (h ▸ rfl)
    rw [get_delete, if_neg hab, hx]
  | @abort b =>
    have hab : a ≠ b := fun h => ha (h ▸ rfl)
    rw [get_delete, if_neg hab, hx]
  | _ => exact hx

end Wf

/-! ### Jobs that are over -/

/-- The committed rows of the jobs `K` have a status in `Q`, and no poll has its hands on
them. -/
structure Secured (Q : AnalysisJobStatus → Prop) (K : List Uuid) (s : State) : Prop where
  rows : ∀ k ∈ K, ∃ job ∈ s.jobs.row k, Q job.status
  polls : ∀ p k r, s.jobs.updates (.poll p) k = some r → k ∉ K

section Secured

variable {s t : State} {e : Event} {Q : AnalysisJobStatus → Prop} {K : List Uuid}

/-- A poll does not see such a job with another status. -/
theorem Secured.not_mem_of_view (h : Secured Q K s) (hw : Wf s) {p : ℕ} {job : AnalysisJob}
    (hv : job ∈ s.jobs.view (.poll p)) (hj : ¬ Q job.status) : job.id ∉ K := by
  intro hk
  obtain ⟨c, hrow, hset⟩ := h.rows _ hk
  have hseen : s.jobs.seen (.poll p) job.id = some job :=
    get_of_mem (hw.consistent.view_distinctKeys _) hv
  rw [hw.consistent.seen_of_row hrow] at hseen
  cases hu : s.jobs.updates (.poll p) job.id with
  | none =>
    rw [hu, Option.getD_none, Option.some.injEq] at hseen
    exact hj (hseen ▸ hset)
  | some r => exact h.polls p _ r hu hk

theorem Secured.frame (h : Secured Q K s) (hrow : ∀ k ∈ K, t.jobs.row k = s.jobs.row k)
    (hu : ∀ p k r, t.jobs.updates (.poll p) k = some r →
      s.jobs.updates (.poll p) k = some r ∨ k ∉ K) : Secured Q K t where
  rows k hk := by
    rw [hrow k hk]
    exact h.rows k hk
  polls p k r hr := (hu p k r hr).elim (h.polls p k r) id

theorem Secured.subset (h : Secured Q K s) {K' : List Uuid} (hK : K' ⊆ K) : Secured Q K' s :=
  ⟨fun k hk => h.rows k (hK hk), fun p k r hr hk => h.polls p k r hr (hK hk)⟩

/-- An execution commits what it has written to the row of its job. -/
theorem Secured.commit (h : Secured Q K s) (hw : Wf s) {a : ℕ} {x : Exec} {fin : Finish}
    (hx : get s.execs a = some x) (hs : x.stage = .returned fin)
    (hjobs : t.jobs = s.jobs.commit (.exec a)) {K' : List Uuid}
    (hK : ∀ k ∈ K', k ∈ K ∨ k = x.job.id) (hQ : x.job.id ∈ K' → Q fin.status) :
    Secured Q K' t := by
  obtain ⟨r, hr, hstatus⟩ := hw.pending hx hs
  refine ⟨fun k hk => ?_, fun p k r' hr' hk => ?_⟩ <;> rw [hjobs] at *
  · by_cases hkx : k = x.job.id
    · subst hkx
      exact ⟨r, hw.commit_row_of_update hr, hstatus ▸ hQ hk⟩
    · obtain ⟨c, hc, hset⟩ := h.rows k ((hK k hk).resolve_right hkx)
      rw [Option.mem_def] at hc
      exact ⟨c, (hw.commit_row (hw.no_update hx hkx) (by simp [hc])).trans hc, hset⟩
  · have hroll : (s.jobs.rollback (.exec a)).updates (.poll p) k = some r' := hr'
    obtain ⟨-, hr'⟩ := Table.rollback_updates hroll
    rcases hK k hk with hk | rfl
    · exact h.polls p k r' hr' hk
    · cases hw.sole_writer hr hr'

/-- The other events leave such jobs alone, when neither queued nor running ones are among
them. -/
theorem Secured.step (h : Secured Q K s) (hw : Wf s) (hqueued : ¬ Q .queued)
    (hrunning : ¬ Q .running) (he : Effect s e t) (hne : ∀ a, e ≠ .commit a) : Secured Q K t := by
  cases he with
  | commit => exact absurd rfl (hne _)
  | create =>
    refine h.frame (fun k hk => ?_) fun p k r hr => .inl hr
    obtain ⟨c, hc, -⟩ := h.rows k hk
    unfold Table.row at hc ⊢
    rw [get_append, hc, Option.some_or]
  | recover poll hp =>
    refine h.frame (fun k _ => ?_) fun p k r hr => ?_
    · rw [Table.row, recoverStep, Table.writeAll_committed, Table.row]
    · refine (Table.writeAll_updates hr).imp id fun hnew => ?_
      obtain ⟨-, job, hv, rfl, hst⟩ := mem_staleKeys hnew.2
      exact h.not_mem_of_view hw hv (hst.1 ▸ hrunning)
  | select poll hp =>
    refine h.frame (fun k _ => ?_) fun p k r hr => ?_
    · rw [Table.row, selectStep, Table.writeAll_committed, Table.row]
    · refine (Table.writeAll_updates hr).imp id fun hnew => ?_
      obtain ⟨job, hj, rfl⟩ := List.mem_map.mp hnew.2
      obtain ⟨-, hv, hst⟩ := mem_selected hj
      exact h.not_mem_of_view hw hv (hst ▸ hqueued)
  | @acquire p =>
    refine h.frame (fun k hk => ?_) fun q k r hr =>
      .inl (Table.rollback_updates (T := s.jobs) (a := .poll p) hr).2
    obtain ⟨c, hc, -⟩ := h.rows k hk
    rw [Option.mem_def] at hc
    refine hw.commit_row ?_ (by simp [hc])
    cases hu : s.jobs.updates (.poll p) k with
    | none => rfl
    | some r => exact absurd hk (h.polls p k r hu)
  | @stop p =>
    exact h.frame (fun _ _ => rfl) fun q k r hr =>
      .inl (Table.rollback_updates (T := s.jobs) (a := .poll p) hr).2
  | update =>
    refine h.frame (fun k _ => ?_) fun p k r hr => ?_
    · rw [Table.row, finishStep, Table.write_committed, Table.row]
    · rcases Table.write_updates hr with hr | ⟨hp, -⟩
      · exact .inl hr
      · cases hp
  | @abort a =>
    exact h.frame (fun _ _ => rfl) fun q k r hr =>
      .inl (Table.rollback_updates (T := s.jobs) (a := .exec a) hr).2
  | _ => exact h.frame (fun _ _ => rfl) fun _ _ _ hr => .inl hr

end Secured

end LiberNovus.Runtime

import Mathlib.Data.List.ReduceOption
import LiberNovus.Runtime.Locks

/-! One result per job. A finishing call reads the status of the job in one statement
and writes it in another, so an execution may be overtaken by the commit of another
execution of the same job.

Proved: in a run every job has at most one bound analysis and is settled once it has
one, exactly when no overtaken execution commits a requeue or a second analysis. -/

namespace LiberNovus.Runtime

open Rows ReadCommitted Runs Analysis
open Queue (Finish)

/-- The jobs with a committed bound analysis, one entry for each such row. -/
def bound (s : State) : List Uuid :=
  (s.db.analyses.committed.map SessionAnalysis.analysisJobId).reduceOption

/-- The status does not lead to another execution. -/
def AnalysisJobStatus.Settled (status : AnalysisJobStatus) : Prop :=
  status ≠ .queued ∧ status ≠ .running

instance : DecidablePred AnalysisJobStatus.Settled :=
  fun _ => inferInstanceAs (Decidable (_ ∧ _))

/-- At most one committed analysis is bound to a job, and a job with a bound analysis is
neither queued nor running. -/
structure BoundOnce (s : State) : Prop where
  once : (bound s).Nodup
  settled : ∀ k ∈ bound s, ∃ job ∈ s.jobs.row k, job.status.Settled

/-- Execution `a` is about to commit a requeue or an analysis of a job that another
execution has bound an analysis to. When `a` read the status, the job was running. -/
def Overtaken (s : State) (a : ℕ) : Prop :=
  ∃ x ∈ get s.execs a, (∃ fin, x.stage = .returned fin ∧
    (fin.status = .queued ∨ x.analysis ≠ none)) ∧ x.job.id ∈ bound s

/-- No execution commits after having been overtaken. -/
def NotOvertaken (s : State) : Event → Prop
  | .commit a => ¬ Overtaken s a
  | _ => True

/-! ### What executions have stored -/

/-- The row an execution has in the table of analyses, not yet committed. -/
def Exec.stored (x : Exec) : Option SessionAnalysis :=
  match x.stage with
  | .analysing tx => tx.stored
  | _ => x.analysis

def storedBy (execs : List Exec) : TxId → Option SessionAnalysis
  | .poll _ => none
  | .exec a => (get execs a).bind Exec.stored

/-- What an execution has stored is bound to its job, and after storing it the
execution can only complete the job. -/
def Exec.Traced (x : Exec) : Prop :=
  match x.stage with
  | .thinking => x.analysis = none
  | .analysing tx => x.analysis = none ∧ tx.Binds x.job.id
  | .finishing fin | .checked fin _ | .returned fin => ∀ analysis, x.analysis = some analysis →
      analysis.analysisJobId = some x.job.id ∧ fin.status = .completed
  | .raised => True

/-- The invariant of every run. -/
structure Traced (s : State) : Prop where
  wf : Wf s
  holds : Holds s.db.analyses (storedBy s.execs)
  execs : ∀ a x, get s.execs a = some x → x.Traced

section Traced

variable {s t : State} {a : ℕ} {x : Exec}

theorem storedBy_modify {f : Exec → Exec} (hf : ∀ x, (f x).id = x.id) (hx : get s.execs a = some x) :
    storedBy (modify s.execs a f) =
      Function.update (storedBy s.execs) (.exec a) (f x).stored := by
  funext tx
  cases tx with
  | poll p => rfl
  | exec b =>
    by_cases hb : b = a
    · subst hb
      rw [Function.update_self, storedBy, get_changed hf hx, if_pos rfl, Option.bind_some]
    · rw [Function.update_of_ne (by simpa using hb), storedBy, get_changed hf hx, if_neg hb]
      rfl

theorem storedBy_delete : storedBy (delete s.execs a) =
    Function.update (storedBy s.execs) (.exec a) none := by
  funext tx
  cases tx with
  | poll p => rfl
  | exec b =>
    by_cases hb : b = a
    · subst hb
      rw [Function.update_self, storedBy, get_delete, if_pos rfl, Option.bind_none]
    · rw [Function.update_of_ne (by simpa using hb), storedBy, get_delete, if_neg hb]
      rfl

theorem storedBy_of_get (hx : get s.execs a = some x) : storedBy s.execs (.exec a) = x.stored := by
  rw [storedBy, hx, Option.bind_some]

/-- Events that leave the executions and the analyses alone. -/
theorem Traced.frame (h : Traced s) (hw : Wf t) (hx : t.execs = s.execs) (hd : t.db = s.db) :
    Traced t :=
  ⟨hw, by rw [hx, hd]; exact h.holds, by rw [hx]; exact h.execs⟩

/-- An execution moves on. -/
theorem Traced.move (h : Traced s) {f : Exec → Exec} (hf : ∀ x, (f x).id = x.id)
    (hx : get s.execs a = some x) (ht : (f x).Traced) {T : Table TxId Uuid Empty AnalysisJob}
    {db : Tables TxId} (hw : Wf { s with jobs := T, db := db, execs := modify s.execs a f })
    (hh : Holds db.analyses (Function.update (storedBy s.execs) (.exec a) (f x).stored)) :
    Traced { s with jobs := T, db := db, execs := modify s.execs a f } := by
  refine ⟨hw, ?_, fun b y hy => ?_⟩
  · rw [storedBy_modify hf hx]
    exact hh
  · rw [get_changed hf hx] at hy
    split at hy
    · cases hy
      exact ht
    · exact h.execs b y hy

/-- It does so without a statement on the analyses. -/
theorem Traced.idle (h : Traced s) {f : Exec → Exec} (hf : ∀ x, (f x).id = x.id)
    (hx : get s.execs a = some x) (ht : (f x).Traced) (hs : (f x).stored = x.stored)
    {T : Table TxId Uuid Empty AnalysisJob}
    (hw : Wf { s with jobs := T, execs := modify s.execs a f }) :
    Traced { s with jobs := T, execs := modify s.execs a f } := by
  refine h.move hf hx ht hw ?_
  rw [hs, ← storedBy_of_get hx, Function.update_eq_self]
  exact h.holds

theorem Traced.setExec (h : Traced s) (hx : get s.execs a = some x) {stage : ExecStage}
    (ht : ({ x with stage := stage } : Exec).Traced)
    (hs : ({ x with stage := stage } : Exec).stored = x.stored)
    {T : Table TxId Uuid Empty AnalysisJob} (hw : Wf { s.setExec a stage with jobs := T }) :
    Traced { s.setExec a stage with jobs := T } :=
  h.idle (f := fun x => { x with stage := stage }) (fun _ => rfl) hx ht hs hw

theorem Traced.start (h : Traced s) {p : ℕ} {job : AnalysisJob} {polls : List Poll}
    (hw : Wf { s with polls := polls, execs := s.execs ++ [⟨a, p, job, none, .thinking⟩] }) :
    Traced { s with polls := polls, execs := s.execs ++ [⟨a, p, job, none, .thinking⟩] } := by
  have hget : ∀ b y, get (s.execs ++ [⟨a, p, job, none, .thinking⟩]) b = some y →
      get s.execs b = some y ∨ y = ⟨a, p, job, none, .thinking⟩ := by
    intro b y hy
    rw [get_append] at hy
    cases hb : get s.execs b with
    | some z => exact .inl (by rwa [hb, Option.some_or] at hy)
    | none =>
      rw [hb, Option.none_or] at hy
      exact .inr (List.mem_singleton.mp (mem_of_get hy))
  refine ⟨hw, ?_, fun b y hy => ?_⟩
  · have he : storedBy (s.execs ++ [⟨a, p, job, none, .thinking⟩]) = storedBy s.execs := by
      funext tx
      cases tx with
      | poll => rfl
      | exec b =>
        cases hb : get s.execs b with
        | some y => rw [storedBy, storedBy, get_append, hb, Option.some_or]
        | none =>
          rw [storedBy, storedBy, hb]
          cases hy : get (s.execs ++ [⟨a, p, job, none, .thinking⟩]) b with
          | none => rfl
          | some y =>
            rcases hget b y hy with hy | rfl
            · rw [hb] at hy; cases hy
            · rfl
    exact he ▸ h.holds
  · rcases hget b y hy with hy | rfl
    · exact h.execs b y hy
    · rfl

theorem Traced.finish (h : Traced s) {T : Table TxId Uuid Empty AnalysisJob} {db : Tables TxId}
    (hw : Wf { s with jobs := T, db := db, execs := delete s.execs a })
    (hh : Holds db.analyses (Function.update (storedBy s.execs) (.exec a) none)) :
    Traced { s with jobs := T, db := db, execs := delete s.execs a } := by
  refine ⟨hw, by rw [storedBy_delete]; exact hh, fun b y hy => ?_⟩
  rw [get_delete] at hy
  split at hy
  · cases hy
  · exact h.execs b y hy

/-- What a successful execution hands over is what it has stored. -/
theorem Exec.Traced.result (h : x.Traced) {analysis : Option SessionAnalysis}
    (hr : x.result = some analysis) : x.stored = analysis ∧
      ∀ r, analysis = some r → r.analysisJobId = some x.job.id := by
  unfold Exec.result at hr
  split at hr
  · next hs =>
    simp only [Exec.Traced, hs] at h
    split at hr <;> cases hr
    exact ⟨by simp [Exec.stored, hs, h], by simp⟩
  · next tx hs =>
    simp only [Exec.Traced, hs] at h
    split at hr
    · next decision persist hst =>
      split at hr <;> cases hr
      next analysis hp =>
      refine ⟨by simp [Exec.stored, hs, Transaction.stored, hst, hp, Phase.stored], ?_⟩
      rintro _ ⟨⟩
      exact (h.2.2 decision persist hst).2 analysis (by rw [hp]; rfl)
    · cases hr
  · cases hr

/-- An execution that fails has stored nothing. -/
theorem Exec.Traced.failure (h : x.Traced) {failure : Failure} (hc : failure.CanHappen x.stage) :
    x.analysis = none ∧ x.stored = none := by
  unfold Failure.CanHappen at hc
  split at hc
  · next hs =>
    simp only [Exec.Traced, hs] at h
    exact ⟨h, by simp [Exec.stored, hs, h]⟩
  · next tx hs =>
    simp only [Exec.Traced, hs] at h
    refine ⟨h.1, ?_⟩
    split at hc
    · next hst => simp [Exec.stored, hs, Transaction.stored, hst]
    · next hst => simp [Exec.stored, hs, Transaction.stored, hst, hc, Phase.stored]
    · exact hc.elim
  · exact hc.elim

theorem traced_step {e : Event} (h : Traced s) (ht : step s e = some t) : Traced t := by
  have he := effect_of_step ht
  have hw := wf_step h.wf he
  cases he with
  | create | «open» | recover | select | acquire | next | stop => exact h.frame hw rfl rfl
  | start => exact h.start hw
  | analyse x hx hs =>
    have hx' := h.execs _ x hx
    simp only [Exec.Traced, hs] at hx'
    refine h.setExec hx ?_ ?_ hw
    · exact ⟨hx', rfl, by simp⟩
    · simp [Exec.stored, hs, hx', Transaction.stored]
  | statement x tx tx' db' hx hs he =>
    have hx' := h.execs _ x hx
    simp only [Exec.Traced, hs] at hx'
    refine h.move (f := fun x => { x with stage := .analysing tx' }) (fun _ => rfl) hx
      ⟨hx'.1, he.binds hx'.2⟩ hw (he.holds h.holds ?_)
    rw [storedBy_of_get hx, Exec.stored, hs]
  | complete x analysis hx hr =>
    obtain ⟨hstored, hbound⟩ := (h.execs _ x hx).result hr
    exact h.idle (f := fun x => { x with
      analysis := analysis
      stage := .finishing (.markCompleted (analysis.map SessionAnalysis.threadId) _) })
      (fun _ => rfl) hx (fun r hr => ⟨hbound r hr, rfl⟩) hstored.symm hw
  | fail x hx hc =>
    obtain ⟨hn, hstored⟩ := (h.execs _ x hx).failure hc
    refine h.setExec hx ?_ ?_ hw
    · simp [Exec.Traced, hn]
    · rw [hstored]
      exact hn
  | check x fin row hx hs =>
    have hx' := h.execs _ x hx
    simp only [Exec.Traced, hs] at hx'
    refine h.setExec hx ?_ ?_ hw
    · exact hx'
    · simp [Exec.stored, hs]
  | refuse x fin hx hs =>
    refine h.setExec hx ?_ ?_ hw
    · trivial
    · simp [Exec.stored, hs]
  | update x fin loaded hx hs =>
    have hx' := h.execs _ x hx
    simp only [Exec.Traced, hs] at hx'
    refine h.setExec hx ?_ ?_ hw
    · exact hx'
    · simp [Exec.stored, hs]
  | commit => exact h.finish hw (h.holds.commit _)
  | abort => exact h.finish hw (h.holds.rollback _)

theorem traced_quiet {jobs : List AnalysisJob} {analyses : List SessionAnalysis}
    (hj : DistinctKeys jobs) (threads : List AnalysisThread) (ha : DistinctKeys analyses) :
    Traced (quiet jobs threads analyses) := by
  refine ⟨wf_quiet hj _ _, ?_, by simp [quiet]⟩
  have he : storedBy [] = fun _ => none := by funext tx; cases tx <;> rfl
  exact he ▸ holds_ofRows ha

end Traced

/-! ### What commits bind -/

section Bound

variable {s t : State} {a : ℕ} {x : Exec} {e : Event}

/-- Only the commit of an execution binds an analysis. -/
theorem bound_of_ne_commit (he : Effect s e t) (hne : ∀ a, e ≠ .commit a) : bound t = bound s := by
  cases he with
  | commit => exact absurd rfl (hne _)
  | statement _ _ _ _ _ _ he =>
    unfold bound
    rw [he.committed.2]
  | _ => rfl

/-- It binds the analysis that the execution has persisted to the job. -/
theorem bound_commit (h : Traced s) (hx : get s.execs a = some x) {fin : Finish}
    (hs : x.stage = .returned fin) (hdb : t.db.analyses = s.db.analyses.commit (.exec a)) :
    bound t = bound s ++ (x.analysis.map fun _ => x.job.id).toList := by
  have hx' := h.execs a x hx
  simp only [Exec.Traced, hs] at hx'
  have hstored : storedBy s.execs (.exec a) = x.analysis := by
    rw [storedBy_of_get hx, Exec.stored, hs]
  rw [bound, hdb, Table.commit_committed, h.holds.view_map fun _ _ hcr => hcr.analysisJobId,
    List.reduceOption_append, hstored, bound]
  congr 1
  cases hn : x.analysis with
  | none => rfl
  | some analysis =>
    simp only [Option.toList_some, List.map_singleton, (hx' analysis hn).1, Option.map_some,
      List.reduceOption_singleton]

end Bound

/-! ### The guarded runs -/

/-- The invariant of the runs without overtaken commits: no poll has its hands on a job
with a bound analysis. -/
structure Binding (s : State) : Prop extends BoundOnce s where
  traced : Traced s
  polls : ∀ p k r, s.jobs.updates (.poll p) k = some r → k ∉ bound s

section Binding

variable {s t : State} {e : Event}

theorem Binding.secured (h : Binding s) : Secured AnalysisJobStatus.Settled (bound s) s :=
  ⟨h.settled, h.polls⟩

theorem Binding.commit (h : Binding s) {a : ℕ} {x : Exec} {fin : Finish}
    (hx : get s.execs a = some x) (hs : x.stage = .returned fin) (hok : ¬ Overtaken s a)
    (ht : Traced t) (hjobs : t.jobs = s.jobs.commit (.exec a))
    (hdb : t.db.analyses = s.db.analyses.commit (.exec a)) : Binding t := by
  have hb := bound_commit h.traced hx hs hdb
  have hx' := h.traced.execs a x hx
  simp only [Exec.Traced, hs] at hx'
  have hnew : x.analysis ≠ none → x.job.id ∉ bound s := fun hn hk =>
    hok ⟨x, hx, ⟨fin, hs, .inr hn⟩, hk⟩
  have hmem : ∀ k ∈ bound t, k ∈ bound s ∨ k = x.job.id := by
    intro k hk
    rw [hb] at hk
    rcases List.mem_append.mp hk with hk | hk
    · exact .inl hk
    · refine .inr ?_
      cases hn : x.analysis with
      | none => rw [hn] at hk; cases hk
      | some => simpa [hn] using hk
  have hsecured : Secured AnalysisJobStatus.Settled (bound t) t := by
    refine h.secured.commit h.traced.wf hx hs hjobs hmem fun hk => ⟨?_, fin.status_ne_running⟩
    -- a requeue commits no analysis, and it is not committed on a bound job
    intro hq
    cases hn : x.analysis with
    | none =>
      rw [hb, hn, Option.map_none, Option.toList_none, List.append_nil] at hk
      exact hok ⟨x, hx, ⟨fin, hs, .inl hq⟩, hk⟩
    | some analysis => rw [(hx' analysis hn).2] at hq; cases hq
  refine ⟨⟨?_, hsecured.rows⟩, ht, hsecured.polls⟩
  rw [hb]
  cases hn : x.analysis with
  | none => simpa using h.once
  | some analysis =>
    refine List.nodup_append.mpr ⟨h.once, List.nodup_singleton _, ?_⟩
    rintro k hk _ hk' rfl
    obtain rfl := List.mem_singleton.mp hk'
    exact hnew (by simp [hn]) hk

theorem binding_step (h : Binding s) (hok : NotOvertaken s e) (hstep : step s e = some t) :
    Binding t := by
  have ht := traced_step h.traced hstep
  have he := effect_of_step hstep
  by_cases hc : ∃ a, e = .commit a
  · obtain ⟨a, rfl⟩ := hc
    cases he with
    | commit x fin hx hs => exact h.commit hx hs hok ht rfl rfl
  · have hne : ∀ a, e ≠ .commit a := fun a he => hc ⟨a, he⟩
    have hb := bound_of_ne_commit he hne
    have hsecured : Secured AnalysisJobStatus.Settled (bound t) t := by
      rw [hb]
      exact h.secured.step h.traced.wf (fun hq => hq.1 rfl) (fun hr => hr.2 rfl) he hne
    exact ⟨⟨hb ▸ h.once, hsecured.rows⟩, ht, hsecured.polls⟩

/-- The commit of an overtaken execution breaks the property. -/
theorem not_boundOnce_of_overtaken (h : Traced s) {a : ℕ} (ho : Overtaken s a)
    (ht : step s (.commit a) = some t) : ¬ BoundOnce t := by
  obtain ⟨x, hx, ⟨fin, hs, hfin⟩, hk⟩ := ho
  have hafter : t.jobs = s.jobs.commit (.exec a) ∧
      t.db.analyses = s.db.analyses.commit (.exec a) := by
    cases effect_of_step ht
    exact ⟨rfl, rfl⟩
  have hbound := bound_commit h hx hs hafter.2
  intro hb
  rcases hfin with hq | hn
  · obtain ⟨r, hr, hst⟩ := h.wf.pending hx hs
    obtain ⟨job, hjob, hset⟩ := hb.settled x.job.id (by
      rw [hbound]
      exact List.mem_append_left _ hk)
    rw [hafter.1] at hjob
    obtain rfl := Option.some.inj ((h.wf.commit_row_of_update hr).symm.trans hjob)
    exact hset.1 (hst.trans hq)
  · obtain ⟨analysis, ha⟩ := Option.ne_none_iff_exists'.mp hn
    have honce := hb.once
    rw [hbound, ha] at honce
    exact (List.nodup_append.mp honce).2.2 _ hk _ (List.mem_singleton_self _) rfl

end Binding

/-- In a run every job has at most one bound analysis and is settled once it has one,
exactly when no overtaken execution commits. -/
theorem boundOnce_iff_notOvertaken {jobs : List AnalysisJob} {threads : List AnalysisThread}
    {analyses : List SessionAnalysis} (hj : DistinctKeys jobs) (ha : DistinctKeys analyses)
    (hb : BoundOnce (quiet jobs threads analyses)) (es : List Event) :
    Always step BoundOnce (quiet jobs threads analyses) es ↔
      Guarded step NotOvertaken (quiet jobs threads analyses) es := by
  have htraced := traced_quiet hj threads ha
  constructor
  · refine guarded_of_always (fun _ _ _ h ht => traced_step h ht) ?_ htraced
    intro s e t h _ ht hbt
    cases e with
    | commit a => exact fun ho => not_boundOnce_of_overtaken h ho ht hbt
    | _ => trivial
  · intro hg
    refine (always_of_guarded (fun _ _ _ h hok ht => binding_step h hok ht) ?_ hg).mono
      fun _ h => h.toBoundOnce
    exact ⟨hb, htraced, by simp [quiet, Table.ofRows]⟩

/-! ### Examples -/

namespace Binding

open Example

instance (x : Exec) : Decidable (∃ fin, x.stage = .returned fin ∧
    (fin.status = .queued ∨ x.analysis ≠ none)) :=
  match h : x.stage with
  | .returned fin => decidable_of_iff (fin.status = .queued ∨ x.analysis ≠ none) (by simp)
  | .thinking | .analysing _ | .finishing _ | .checked .. | .raised => isFalse (by simp)

instance (s : State) : ∀ e, Decidable (NotOvertaken s e)
  | .commit a => inferInstanceAs (Decidable (¬ ∃ x ∈ get s.execs a, _ ∧ _))
  | .create .. | .open .. | .recover _ | .select _ | .acquire _ | .next _ | .start .. | .stop _
  | .analyse .. | .statement .. | .complete .. | .fail .. | .check _ | .update _ | .abort _ =>
    isTrue trivial

theorem boundOnce_unbound (jobs : List AnalysisJob) : BoundOnce (quiet jobs [] []) :=
  ⟨List.nodup_nil, by simp [bound, quiet, Table.ofRows]⟩

/-- The job is taken twice, and the second execution times out once the first one has
completed the job. -/
def late : List Event :=
  takes 0 0 "worker-a" 0 ++ takes 1 1 "worker-b" (seconds 200) ++ stores 0 2 20 (seconds 210) ++
    [.complete 0 (seconds 210), .check 0, .update 0, .commit 0] ++ timesOut 1 (seconds 220)

theorem boundOnce_late : Always step BoundOnce (quiet [job] [] []) late :=
  (boundOnce_iff_notOvertaken (by simp [DistinctKeys]) distinctKeys_nil
    (boundOnce_unbound [job]) late).mpr (by decide)

/-- The second execution reads the status before the first one has completed the job, and
writes it afterwards. -/
def overtaken : List Event :=
  takes 0 0 "worker-a" 0 ++ takes 1 1 "worker-b" (seconds 200) ++ timesOut 1 (seconds 205) ++
    stores 0 2 20 (seconds 210) ++
    [.complete 0 (seconds 210), .check 0, .update 0, .commit 0, .update 1, .commit 1]

theorem run_overtaken : (run step (quiet [job] [] []) overtaken).map (fun s =>
    ((s.jobs.row 1).map AnalysisJob.status, bound s)) = some (some .queued, [1]) := by
  decide

/-- The job that has a bound analysis is queued again. -/
theorem queued_again : ¬ ∀ jobs threads analyses, DistinctKeys jobs → DistinctKeys analyses →
    BoundOnce (quiet jobs threads analyses) →
    ∀ es, Always step BoundOnce (quiet jobs threads analyses) es := by
  intro h
  obtain ⟨s, hs, hl⟩ := Option.map_eq_some_iff.mp run_overtaken
  obtain ⟨hrow, hbound⟩ := Prod.mk.inj hl
  have hb := (h [job] [] [] (by simp [DistinctKeys]) distinctKeys_nil (boundOnce_unbound [job])
    overtaken).of_run hs
  obtain ⟨row, hr, hset⟩ := hb.settled 1 (by rw [hbound]; exact List.mem_singleton_self 1)
  rw [Option.mem_def.mp hr, Option.map_some, Option.some.injEq] at hrow
  exact hset.1 hrow

end Binding

end LiberNovus.Runtime

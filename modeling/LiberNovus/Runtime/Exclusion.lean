import LiberNovus.Runtime.Locks

/-! One active execution per job. A job is live from the commit of its acquisition to
the end of the execution's transaction: while it waits in a batch, while it is
executed, and until the result is committed.

Proved: in every run in which no recovery takes a live job, no job is ever executed
twice at the same time. -/

namespace LiberNovus.Runtime

open Rows ReadCommitted Runs Analysis

/-- The jobs of a batch of which no execution has been started. -/
def PollStage.waiting : PollStage → List Uuid
  | .running _ chunk rest => (chunk ++ rest).map AnalysisJob.id
  | _ => []

/-- The live jobs: waiting in a batch, or in the hands of an execution. -/
def live (s : State) : List Uuid :=
  s.polls.flatMap (fun poll => poll.stage.waiting) ++ s.execs.flatMap fun x => [x.job.id]

/-- No two executions of one job are in progress. -/
def SoleExecution (s : State) : Prop :=
  ((s.execs.filter fun x => x.InProgress).map fun x => x.job.id).Nodup

/-- The recovery of stale locks takes no job that is live. -/
def NoLiveRecovery (s : State) : Event → Prop
  | .recover p => ∀ poll ∈ get s.polls p, ∀ k ∈ staleKeys s.jobs poll, k ∉ live s
  | _ => True

structure Sole (s : State) : Prop where
  wf : Wf s
  nodup : (live s).Nodup
  running : ∀ k ∈ live s, ∃ c, s.jobs.row k = some c ∧ c.status = .running
  polls : ∀ p k r, s.jobs.updates (.poll p) k = some r → k ∉ live s
  taken : ∀ p poll jobs, get s.polls p = some poll → poll.stage = .selected jobs →
    (jobs.map AnalysisJob.id).Nodup ∧
      ∀ job ∈ jobs, ∃ r, s.jobs.updates (.poll p) job.id = some r ∧ r.status = .running

theorem Sole.soleExecution {s : State} (h : Sole s) : SoleExecution s := by
  have hsub : ((s.execs.filter fun x => x.InProgress).map fun x => x.job.id).Sublist (live s) := by
    rw [live, ← List.map_eq_flatMap]
    exact (List.filter_sublist.map _).trans (List.sublist_append_right _ _)
  exact h.nodup.sublist hsub

/-! ### Live jobs -/

section Live

variable {s : State}

/-- Moving a poll to another stage replaces what it has waiting. -/
theorem live_setPoll (hu : DistinctKeys s.polls) {p : ℕ} {poll : Poll}
    (hp : get s.polls p = some poll) : ∃ others, (live s).Perm (poll.stage.waiting ++ others) ∧
      (live { s with polls := delete s.polls p }).Perm others ∧
      ∀ stage, (live (s.setPoll p stage)).Perm (stage.waiting ++ others) := by
  refine ⟨(delete s.polls p).flatMap (fun poll => poll.stage.waiting) ++
    s.execs.flatMap fun x => [x.job.id], ?_, List.Perm.refl _, fun stage => ?_⟩
  · rw [← List.append_assoc]
    exact (flatMap_delete_perm hu hp _).append_right _
  · rw [← List.append_assoc]
    exact (flatMap_modify_perm hu hp _ _).append_right _

theorem live_modify_exec {a : ℕ} {f : Exec → Exec} (hf : ∀ x, (f x).job = x.job) :
    live { s with execs := modify s.execs a f } = live s := by
  have he : (modify s.execs a f).flatMap (fun x => [x.job.id]) =
      s.execs.flatMap fun x => [x.job.id] := by
    rw [Rows.modify, List.flatMap_map]
    refine List.flatMap_congr fun x _ => ?_
    split <;> simp [hf]
  rw [live, live, he]

theorem live_delete_exec (hu : DistinctKeys s.execs) {a : ℕ} {x : Exec}
    (hx : get s.execs a = some x) :
    (live s).Perm (x.job.id :: live { s with execs := delete s.execs a }) := by
  refine ((flatMap_delete_perm hu hx fun x => [x.job.id]).append_left _).trans ?_
  rw [← List.append_assoc]
  have hcomm : (s.polls.flatMap (fun poll => poll.stage.waiting) ++ [x.job.id]).Perm
      ([x.job.id] ++ s.polls.flatMap fun poll => poll.stage.waiting) := List.perm_append_comm
  exact hcomm.append_right _

theorem live_start (a p : ℕ) (job : AnalysisJob) :
    (live { s with execs := s.execs ++ [⟨a, p, job, none, .thinking⟩] }).Perm
      (job.id :: live s) := by
  have he : live { s with execs := s.execs ++ [⟨a, p, job, none, .thinking⟩] } =
      live s ++ [job.id] := by
    simp [live, List.flatMap_append]
  rw [he]
  exact List.perm_append_comm

end Live

/-! ### The invariant -/

section Steps

variable {s t : State}

/-- Events that leave the table of jobs and the live jobs alone. -/
theorem Sole.quiet (h : Sole s) (hw : Wf t) (hl : (live t).Perm (live s)) (hj : t.jobs = s.jobs)
    (hp : ∀ p poll jobs, get t.polls p = some poll → poll.stage = .selected jobs →
      ∃ poll₀, get s.polls p = some poll₀ ∧ poll₀.stage = .selected jobs) : Sole t where
  wf := hw
  nodup := hl.nodup_iff.mpr h.nodup
  running k hk := hj ▸ h.running k (hl.mem_iff.mp hk)
  polls p k r hr hk := h.polls p k r (hj ▸ hr) (hl.mem_iff.mp hk)
  taken p poll jobs hpp hs := by
    obtain ⟨poll₀, hpp₀, hs₀⟩ := hp p poll jobs hpp hs
    exact hj ▸ h.taken p poll₀ jobs hpp₀ hs₀

/-- A poll is in the stage it was moved to, the other polls are where they were. -/
theorem get_setPoll {p q : ℕ} {stage : PollStage} {poll : Poll}
    (h : get (s.setPoll p stage).polls q = some poll) :
    q = p ∧ poll.stage = stage ∨ q ≠ p ∧ get s.polls q = some poll := by
  have hf : ∀ poll : Poll, key { poll with stage := stage } = key poll := fun _ => rfl
  rw [State.setPoll, get_modify hf] at h
  split at h
  · next hq =>
    obtain ⟨poll₀, -, rfl⟩ := Option.map_eq_some_iff.mp h
    exact .inl ⟨hq, rfl⟩
  · next hq => exact .inr ⟨hq, h⟩

/-- Moves of an execution that leave the table of jobs alone. -/
theorem Sole.moveExec (h : Sole s) {a : ℕ} {f : Exec → Exec} (hf : ∀ x, (f x).job = x.job)
    {db : Tables TxId} (hw : Wf { s with execs := modify s.execs a f, db := db }) :
    Sole { s with execs := modify s.execs a f, db := db } :=
  h.quiet hw (List.Perm.of_eq (live_modify_exec hf)) rfl fun _ _ _ hp hs => ⟨_, hp, hs⟩

theorem Sole.setExec (h : Sole s) {a : ℕ} {stage : ExecStage} {db : Tables TxId}
    (hw : Wf { s.setExec a stage with db := db }) : Sole { s.setExec a stage with db := db } :=
  h.moveExec (f := fun x => { x with stage := stage }) (fun _ => rfl) hw

theorem Sole.succeed (h : Sole s) {a : ℕ} {analysis : Option SessionAnalysis} {now : Time}
    (hw : Wf (s.succeed a analysis now)) : Sole (s.succeed a analysis now) :=
  h.moveExec (f := fun x => { x with
    analysis := analysis
    stage := .finishing (.markCompleted (analysis.map SessionAnalysis.threadId) now) })
    (fun _ => rfl) hw

/-- Statements of a poll that lock rows of jobs that are not live. -/
theorem Sole.writeAll (h : Sole s) {p : ℕ} {poll : Poll} (hpp : get s.polls p = some poll)
    (hwait : poll.stage.waiting = []) {stage : PollStage} (hstage : stage.waiting = [])
    {keys : List Uuid} {q : AnalysisJob → Prop} [DecidablePred q] {f : AnalysisJob → AnalysisJob}
    (hkeys : ∀ k ∈ keys, k ∉ live s)
    (hw : Wf { s.setPoll p stage with jobs := s.jobs.writeAll (.poll p) keys q f })
    (htaken : ∀ jobs, stage = .selected jobs → (jobs.map AnalysisJob.id).Nodup ∧
      ∀ job ∈ jobs, ∃ r, (s.jobs.writeAll (.poll p) keys q f).updates (.poll p) job.id = some r ∧
        r.status = .running) :
    Sole { s.setPoll p stage with jobs := s.jobs.writeAll (.poll p) keys q f } := by
  obtain ⟨others, hl, -, hl'⟩ := live_setPoll h.wf.polls hpp
  have hlive : (live { s.setPoll p stage with jobs := s.jobs.writeAll (.poll p) keys q f }).Perm
      (live s) := by
    have h' := hl' stage
    rw [hstage] at h'
    rw [hwait] at hl
    exact h'.trans hl.symm
  refine ⟨hw, hlive.nodup_iff.mpr h.nodup, ?_, ?_, ?_⟩
  · intro k hk
    obtain ⟨c, hc, hs⟩ := h.running k (hlive.mem_iff.mp hk)
    exact ⟨c, by rwa [Table.row, Table.writeAll_committed], hs⟩
  · intro p' k r hr hk
    rcases Table.writeAll_updates hr with hr | ⟨-, hk'⟩
    · exact h.polls p' k r hr (hlive.mem_iff.mp hk)
    · exact hkeys k hk' (hlive.mem_iff.mp hk)
  · intro p' poll' jobs hp' hs'
    rcases get_setPoll hp' with ⟨rfl, hst⟩ | ⟨hne, hp'⟩
    · exact htaken jobs (hst.symm.trans hs')
    · obtain ⟨hnd, hupd⟩ := h.taken p' poll' jobs hp' hs'
      refine ⟨hnd, fun job hj => ?_⟩
      rw [Table.writeAll_updates_of_ne (by simpa using hne)]
      exact hupd job hj

/-- What a poll sees of a live job is the running row. -/
theorem Sole.seen_live (h : Sole s) {p : ℕ} {k : Uuid} (hk : k ∈ live s) :
    ∃ c, s.jobs.seen (.poll p) k = some c ∧ c.status = .running := by
  obtain ⟨c, hc, hs⟩ := h.running k hk
  refine ⟨c, ?_, hs⟩
  rw [h.wf.consistent.seen_of_row hc]
  cases hu : s.jobs.updates (.poll p) k with
  | none => rfl
  | some r => exact absurd hk (h.polls p k r hu)

/-- A job that an acquisition selects is not live. -/
theorem Sole.not_live_selected (h : Sole s) {poll : Poll} {job : AnalysisJob}
    (hj : job ∈ selected s.jobs poll) : job.id ∉ live s := by
  intro hk
  obtain ⟨-, hv, hq⟩ := mem_selected hj
  obtain ⟨c, hc, hr⟩ := h.seen_live (p := poll.id) hk
  have hs : s.jobs.seen (.poll poll.id) job.id = some job :=
    get_of_mem (h.wf.consistent.view_distinctKeys _) hv
  rw [hs, Option.some.injEq] at hc
  rw [← hc, hq] at hr
  cases hr

/-- After its statement an acquisition holds every row it has selected, running. -/
theorem Sole.taken_selected (h : Sole s) (poll : Poll) (job : AnalysisJob)
    (hj : job ∈ selected s.jobs poll) :
    ∃ r, (selectStep s.jobs poll).updates (.poll poll.id) job.id = some r ∧ r.status = .running := by
  refine Table.writeAll_updates_of_mem (f := AnalysisJob.acquired poll.worker.workerId poll.acquiredAt)
    (P := fun r => r.status = .running) h.wf.consistent (fun _ => rfl) selected_free
    (fun r => by simp [AnalysisJob.acquired]) ?_ (.inl (List.mem_map_of_mem hj))
  have hv := (mem_selected hj).2.1
  rw [Table.view, h.wf.noInserts, List.append_nil] at hv
  obtain ⟨c, hc, rfl⟩ := List.mem_map.mp hv
  rw [← key_job, h.wf.consistent.key_overlay, Table.row, get_of_mem h.wf.consistent.unique hc]
  simp

theorem Sole.recover (h : Sole s) {p : ℕ} {poll : Poll} (hp : get s.polls p = some poll)
    (hs : poll.stage = .opened) (hok : NoLiveRecovery s (.recover p))
    (hw : Wf { s.setPoll p .recovered with jobs := recoverStep s.jobs poll }) :
    Sole { s.setPoll p .recovered with jobs := recoverStep s.jobs poll } := by
  have hid : poll.id = p := key_of_get hp
  subst hid
  exact h.writeAll hp (by rw [hs]; rfl) rfl (hok poll hp) hw (by simp)

theorem Sole.select (h : Sole s) {p : ℕ} {poll : Poll} (hp : get s.polls p = some poll)
    (hs : poll.stage = .recovered) {jobs : List AnalysisJob}
    (hjobs : jobs = (selected s.jobs poll).map
      (AnalysisJob.acquired poll.worker.workerId poll.acquiredAt))
    (hw : Wf { s.setPoll p (.selected jobs) with jobs := selectStep s.jobs poll }) :
    Sole { s.setPoll p (.selected jobs) with jobs := selectStep s.jobs poll } := by
  have hid : poll.id = p := key_of_get hp
  subst hid
  refine h.writeAll hp (by rw [hs]; rfl) rfl ?_ hw ?_
  · intro k hk
    obtain ⟨job, hj, rfl⟩ := List.mem_map.mp hk
    exact h.not_live_selected hj
  · rintro jobs' ⟨⟩
    subst hjobs
    have hids : ((selected s.jobs poll).map
        (AnalysisJob.acquired poll.worker.workerId poll.acquiredAt)).map AnalysisJob.id =
        (selected s.jobs poll).map key := by
      simp [Function.comp_def]
    refine ⟨?_, fun job hj => ?_⟩
    · rw [hids]
      exact selectAvailable_distinctKeys (h.wf.consistent.view_distinctKeys _) _ _ _
    · obtain ⟨job₀, hj₀, rfl⟩ := List.mem_map.mp hj
      exact h.taken_selected poll job₀ hj₀

theorem Sole.acquire (h : Sole s) {p : ℕ} {poll : Poll} {jobs : List AnalysisJob}
    (hp : get s.polls p = some poll) (hs : poll.stage = .selected jobs) {n : ℕ}
    (hw : Wf { s.setPoll p (.running [] (jobs.take n) (jobs.drop n)) with
      jobs := s.jobs.commit (.poll p) }) :
    Sole { s.setPoll p (.running [] (jobs.take n) (jobs.drop n)) with
      jobs := s.jobs.commit (.poll p) } := by
  obtain ⟨others, hl, -, hl'⟩ := live_setPoll h.wf.polls hp
  obtain ⟨hnd, hupd⟩ := h.taken p poll jobs hp hs
  have hlive : (live { s.setPoll p (.running [] (jobs.take n) (jobs.drop n)) with
      jobs := s.jobs.commit (.poll p) }).Perm (jobs.map AnalysisJob.id ++ live s) := by
    have h' := hl' (.running [] (jobs.take n) (jobs.drop n))
    simp only [PollStage.waiting, List.take_append_drop] at h'
    rw [hs] at hl
    exact h'.trans (hl.symm.append_left _)
  -- the rows that were taken are locked by this poll and were not live before
  have htaken : ∀ k ∈ jobs.map AnalysisJob.id, ∃ r, s.jobs.updates (.poll p) k = some r ∧
      r.status = .running := by
    intro k hk
    obtain ⟨job, hj, rfl⟩ := List.mem_map.mp hk
    exact hupd job hj
  refine ⟨hw, ?_, ?_, ?_, ?_⟩
  · refine hlive.nodup_iff.mpr (List.nodup_append.mpr ⟨hnd, h.nodup, ?_⟩)
    rintro k hk _ hk' rfl
    obtain ⟨r, hr, -⟩ := htaken k hk
    exact h.polls p k r hr hk'
  · intro k hk
    rcases List.mem_append.mp (hlive.mem_iff.mp hk) with hk | hk
    · obtain ⟨r, hr, hst⟩ := htaken k hk
      exact ⟨r, h.wf.commit_row_of_update hr, hst⟩
    · obtain ⟨c, hc, hst⟩ := h.running k hk
      refine ⟨c, (h.wf.commit_row ?_ (by simp [hc])).trans hc, hst⟩
      cases hu : s.jobs.updates (.poll p) k with
      | none => rfl
      | some r => exact absurd hk (h.polls p k r hu)
  · intro q k r hr hk
    have hr' : (s.jobs.rollback (.poll p)).updates (.poll q) k = some r := hr
    obtain ⟨hne, hr⟩ := Table.rollback_updates hr'
    rcases List.mem_append.mp (hlive.mem_iff.mp hk) with hk | hk
    · obtain ⟨r', hr', -⟩ := htaken k hk
      exact hne (h.wf.sole_writer hr hr')
    · exact h.polls q k r hr hk
  · intro q poll' jobs' hq hs'
    rcases get_setPoll hq with ⟨rfl, hst⟩ | ⟨hne, hq⟩
    · rw [hst] at hs'
      cases hs'
    · obtain ⟨hnd', hupd'⟩ := h.taken q poll' jobs' hq hs'
      refine ⟨hnd', fun job hj => ?_⟩
      show ∃ r, (s.jobs.rollback (.poll p)).updates (.poll q) job.id = some r ∧ _
      rw [(Table.rollback_work_of_ne (by simpa using hne)).1]
      exact hupd' job hj

theorem Sole.stop (h : Sole s) {p : ℕ} {poll : Poll} (hp : get s.polls p = some poll)
    (hw : Wf { s with polls := delete s.polls p, jobs := s.jobs.rollback (.poll p) }) :
    Sole { s with polls := delete s.polls p, jobs := s.jobs.rollback (.poll p) } := by
  obtain ⟨others, hl, hdel, -⟩ := live_setPoll h.wf.polls hp
  have hlive : (live s).Perm (poll.stage.waiting ++
      live { s with polls := delete s.polls p, jobs := s.jobs.rollback (.poll p) }) :=
    hl.trans (hdel.symm.append_left _)
  have hsub : ∀ k ∈ live { s with polls := delete s.polls p, jobs := s.jobs.rollback (.poll p) },
      k ∈ live s := fun k hk => hlive.mem_iff.mpr (List.mem_append_right _ hk)
  refine ⟨hw, (List.nodup_append.mp (hlive.nodup_iff.mp h.nodup)).2.1, ?_, ?_, ?_⟩
  · exact fun k hk => h.running k (hsub k hk)
  · exact fun q k r hr hk => h.polls q k r (Table.rollback_updates hr).2 (hsub k hk)
  · intro q poll' jobs hq hs
    rw [get_delete] at hq
    split at hq
    · cases hq
    · next hne =>
      obtain ⟨hnd, hupd⟩ := h.taken q poll' jobs hq hs
      refine ⟨hnd, fun job hj => ?_⟩
      rw [(Table.rollback_work_of_ne (by simpa using hne)).1]
      exact hupd job hj

theorem Sole.start (h : Sole s) {p a : ℕ} {poll : Poll} {active : List ℕ} {job : AnalysisJob}
    {chunk rest : List AnalysisJob} (hp : get s.polls p = some poll)
    (hs : poll.stage = .running active (job :: chunk) rest)
    (hw : Wf { s.setPoll p (.running (active ++ [a]) chunk rest) with
      execs := s.execs ++ [⟨a, p, job, none, .thinking⟩] }) :
    Sole { s.setPoll p (.running (active ++ [a]) chunk rest) with
      execs := s.execs ++ [⟨a, p, job, none, .thinking⟩] } := by
  obtain ⟨others, hl, -, hl'⟩ := live_setPoll h.wf.polls hp
  refine h.quiet hw ?_ rfl ?_
  · have hstart := live_start (s := s.setPoll p (.running (active ++ [a]) chunk rest)) a p job
    rw [hs] at hl
    exact hstart.trans (((hl' _).cons job.id).trans hl.symm)
  · intro q poll' jobs hq hs'
    rcases get_setPoll hq with ⟨-, hst⟩ | ⟨-, hq⟩
    · rw [hst] at hs'
      cases hs'
    · exact ⟨poll', hq, hs'⟩

theorem Sole.next (h : Sole s) {p : ℕ} {poll : Poll} {active : List ℕ} {rest : List AnalysisJob}
    (hp : get s.polls p = some poll) (hs : poll.stage = .running active [] rest) {n : ℕ}
    (hw : Wf (s.setPoll p (.running [] (rest.take n) (rest.drop n)))) :
    Sole (s.setPoll p (.running [] (rest.take n) (rest.drop n))) := by
  obtain ⟨others, hl, -, hl'⟩ := live_setPoll h.wf.polls hp
  refine h.quiet hw ?_ rfl ?_
  · have h' := hl' (.running [] (rest.take n) (rest.drop n))
    simp only [PollStage.waiting, List.take_append_drop] at h'
    rw [hs] at hl
    exact h'.trans hl.symm
  · intro q poll' jobs hq hs'
    rcases get_setPoll hq with ⟨-, hst⟩ | ⟨-, hq⟩
    · rw [hst] at hs'
      cases hs'
    · exact ⟨poll', hq, hs'⟩

theorem Sole.create (h : Sole s) {job : AnalysisJob}
    (hw : Wf { s with jobs := { s.jobs with committed := s.jobs.committed ++ [job] } }) :
    Sole { s with jobs := { s.jobs with committed := s.jobs.committed ++ [job] } } := by
  refine ⟨hw, h.nodup, fun k hk => ?_, h.polls, h.taken⟩
  obtain ⟨c, hc, hs⟩ := h.running k hk
  refine ⟨c, ?_, hs⟩
  unfold Table.row at hc ⊢
  rw [get_append, hc, Option.some_or]

theorem Sole.open (h : Sole s) {p : ℕ} {worker : Worker} {acquiredAt : Time}
    (hw : Wf { s with polls := s.polls ++ [⟨p, worker, acquiredAt, .opened⟩] }) :
    Sole { s with polls := s.polls ++ [⟨p, worker, acquiredAt, .opened⟩] } := by
  refine h.quiet hw (List.Perm.of_eq ?_) rfl ?_
  · simp [live, List.flatMap_append, PollStage.waiting]
  · intro q poll jobs hq hs
    rw [get_append] at hq
    cases hg : get s.polls q with
    | some poll₀ =>
      rw [hg, Option.some_or, Option.some.injEq] at hq
      exact ⟨poll, by rw [hq], hs⟩
    | none =>
      rw [hg, Option.none_or] at hq
      obtain rfl := List.mem_singleton.mp (mem_of_get hq)
      cases hs

theorem Sole.update (h : Sole s) {a : ℕ} {x : Exec} {stage : ExecStage} {f : AnalysisJob → AnalysisJob}
    (hw : Wf { s.setExec a stage with jobs := s.jobs.write (.exec a) x.job.id f }) :
    Sole { s.setExec a stage with jobs := s.jobs.write (.exec a) x.job.id f } := by
  have hlive : live { s.setExec a stage with jobs := s.jobs.write (.exec a) x.job.id f } = live s :=
    live_modify_exec (s := s) (a := a) (f := fun x => { x with stage := stage }) fun _ => rfl
  refine ⟨hw, by rw [hlive]; exact h.nodup, ?_, ?_, ?_⟩
  · intro k hk
    obtain ⟨c, hc, hs⟩ := h.running k (hlive ▸ hk)
    exact ⟨c, by rwa [Table.row, Table.write_committed], hs⟩
  · intro p k r hr hk
    rcases Table.write_updates hr with hr | ⟨hp, -⟩
    · exact h.polls p k r hr (hlive ▸ hk)
    · cases hp
  · intro p poll jobs hp hs
    obtain ⟨hnd, hupd⟩ := h.taken p poll jobs hp hs
    refine ⟨hnd, fun job hj => ?_⟩
    rw [Table.write_updates_of_ne (by simp)]
    exact hupd job hj

/-- The end of an execution: its job is live no more, the rows of the others stay. -/
theorem Sole.finish (h : Sole s) {a : ℕ} {x : Exec} (hx : get s.execs a = some x)
    {T : Table TxId Uuid Empty AnalysisJob} {db : Tables TxId}
    (hT : T.updates = (s.jobs.rollback (.exec a)).updates)
    (hrow : ∀ k c, k ≠ x.job.id → s.jobs.row k = some c → T.row k = some c)
    (hw : Wf { s with jobs := T, db := db, execs := delete s.execs a }) :
    Sole { s with jobs := T, db := db, execs := delete s.execs a } := by
  have hlive : (live s).Perm (x.job.id ::
      live { s with jobs := T, db := db, execs := delete s.execs a }) :=
    live_delete_exec h.wf.execs hx
  obtain ⟨hn, hnd⟩ := List.nodup_cons.mp (hlive.nodup_iff.mp h.nodup)
  have hsub : ∀ k ∈ live { s with jobs := T, db := db, execs := delete s.execs a }, k ∈ live s :=
    fun k hk => hlive.mem_iff.mpr (List.mem_cons_of_mem _ hk)
  refine ⟨hw, hnd, ?_, ?_, ?_⟩
  · intro k hk
    obtain ⟨c, hc, hs⟩ := h.running k (hsub k hk)
    exact ⟨c, hrow k c (fun he => hn (he ▸ hk)) hc, hs⟩
  · intro p k r hr hk
    have hr' : (s.jobs.rollback (.exec a)).updates (.poll p) k = some r := hT ▸ hr
    exact h.polls p k r (Table.rollback_updates hr').2 (hsub k hk)
  · intro p poll jobs hp hs
    obtain ⟨hnd', hupd⟩ := h.taken p poll jobs hp hs
    refine ⟨hnd', fun job hj => ?_⟩
    show ∃ r, T.updates (.poll p) job.id = some r ∧ _
    rw [hT, (Table.rollback_work_of_ne (by simp)).1]
    exact hupd job hj

/-- The step lemma. -/
theorem sole_step {e : Event} (h : Sole s) (hok : NoLiveRecovery s e) (ht : step s e = some t) :
    Sole t := by
  have he := effect_of_step ht
  have hw := wf_step h.wf he
  cases he with
  | create => exact h.create hw
  | «open» => exact h.open hw
  | recover poll hp hs => exact h.recover hp hs hok hw
  | select poll hp hs => exact h.select hp hs rfl hw
  | acquire poll jobs hp hs => exact h.acquire hp hs hw
  | next poll active rest hp hs => exact h.next hp hs hw
  | start poll active job chunk rest hp hs => exact h.start hp hs hw
  | stop poll hp => exact h.stop hp hw
  | analyse | statement | fail | check | refuse => exact h.setExec hw
  | complete => exact h.succeed hw
  | update => exact h.update hw
  | commit x fin hx =>
    refine h.finish hx rfl (fun k c hk hc => ?_) hw
    exact (h.wf.commit_row (h.wf.no_update hx hk) (by simp [hc])).trans hc
  | abort x hx => exact h.finish hx rfl (fun _ _ _ hc => hc) hw

end Steps

/-- In every run in which no recovery takes a live job, no job is ever executed twice
at the same time. -/
theorem sole_execution {jobs : List AnalysisJob} (hu : DistinctKeys jobs)
    (threads : List AnalysisThread) (analyses : List SessionAnalysis) {es : List Event}
    (hg : Guarded step NoLiveRecovery (quiet jobs threads analyses) es) :
    Always step SoleExecution (quiet jobs threads analyses) es := by
  have hinit : Sole (quiet jobs threads analyses) :=
    ⟨wf_quiet hu threads analyses, List.nodup_nil, by simp [live, quiet],
      by simp [quiet, Table.ofRows], by simp [quiet]⟩
  exact (always_of_guarded (G := NoLiveRecovery) (fun _ _ _ h hok ht => sole_step h hok ht)
    hinit hg).mono fun _ h => h.soleExecution

/-! ### Examples -/

namespace Exclusion

instance : DecidablePred SoleExecution := fun _ => inferInstanceAs (Decidable (List.Nodup _))

instance (s : State) : ∀ e, Decidable (NoLiveRecovery s e)
  | .recover p => inferInstanceAs (Decidable (∀ poll ∈ get s.polls p, ∀ k ∈ _, _))
  | .create .. | .open .. | .select _ | .acquire _ | .next _ | .start .. | .stop _ | .analyse ..
  | .statement .. | .complete .. | .fail .. | .check _ | .update _ | .commit _ | .abort _ =>
    isTrue trivial

open Example

/-- The job is put back in the queue before the second worker takes it. -/
def retried : List Event :=
  takes 0 0 "worker-a" 0 ++ timesOut 0 (seconds 60) ++ [.update 0, .commit 0] ++
    takes 1 1 "worker-b" (seconds 200)

theorem sole_execution_retried : Always step SoleExecution (quiet [job] [] []) retried :=
  sole_execution (by simp [DistinctKeys]) [] [] (by decide)

/-- The second worker polls 200 seconds after the first one has started the job. -/
def overdue : List Event := takes 0 0 "worker-a" 0 ++ takes 1 1 "worker-b" (seconds 200)

theorem run_overdue : (run step (quiet [job] [] []) overdue).map (fun s =>
    (s.execs.filter fun x => x.InProgress).map fun x => x.job.id) = some [1, 1] := by
  decide

/-- Both workers execute the job at the same time. -/
theorem executed_twice : ¬ ∀ jobs threads analyses, DistinctKeys jobs →
    ∀ es, Always step SoleExecution (quiet jobs threads analyses) es := by
  intro h
  obtain ⟨s, hs, hl⟩ := Option.map_eq_some_iff.mp run_overdue
  have hsole := (h [job] [] [] (by simp [DistinctKeys]) overdue).of_run hs
  rw [SoleExecution, hl] at hsole
  exact absurd hsole (by decide)

end Exclusion

end LiberNovus.Runtime

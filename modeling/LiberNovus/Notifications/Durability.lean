import LiberNovus.Notifications.AtMostOnce
import LiberNovus.Runtime.Binding

/-! What the user was sent and what is stored. An execution sends its message inside its
transaction, and the commit comes after it.

Proved: along a run every message whose execution has ended is stored, with its analysis and
its completed job, exactly when no execution dies between its message and its commit, and no
other one then commits a requeue or a failure of the same job. -/

namespace LiberNovus.Notifications.Durability

open LiberNovus.Runtime Analysis Rows ReadCommitted Runs

/-- A call of `send_analysis`: the execution that has made it, its job and its analysis, and
whether its transaction has ended. -/
structure Message where
  exec : ℕ
  jobId : Uuid
  analysis : SessionAnalysis
  ended : Bool
  deriving DecidableEq

/-- The system, with the messages that it has sent. -/
structure Log where
  system : State
  messages : List Message

/-- The message that an event sends. -/
def messageOf (s t : State) : Event → Option Message
  | .deliver a =>
    if t.sent = s.sent then none else (s.due a).map fun d => ⟨a, d.1.id, d.2, false⟩
  | _ => none

/-- The execution whose transaction an event ends. -/
def endedBy : Event → Option ℕ
  | .worker (.commit a) => some a
  | .worker (.abort a) => some a
  | _ => none

def Message.after (m : Message) (e : Event) : Message :=
  { m with ended := m.ended || decide (endedBy e = some m.exec) }

def step (s : Log) (e : Event) : Option Log := do
  let system ← Notifications.step s.system e
  some ⟨system, s.messages.map (·.after e) ++ (messageOf s.system system e).toList⟩

/-- Nobody is working, and nothing has been sent. -/
def idle (jobs : List AnalysisJob) (threads : List AnalysisThread)
    (analyses : List SessionAnalysis) (now : Time) : Log :=
  ⟨Notifications.idle jobs threads analyses now, []⟩

/-- In the committed rows the job is completed, and the analysis is there as it was sent
(others may have cleared its latest flag), bound to the job. -/
def Message.Stored (m : Message) (s : Runtime.State) : Prop :=
  (∃ job ∈ s.jobs.row m.jobId, job.status = .completed) ∧
    ∃ row ∈ s.db.analyses.row m.analysis.id,
      m.analysis.SameContent row ∧ row.analysisJobId = some m.jobId

/-- Every message whose transaction has ended is stored. -/
def Durable (s : Log) : Prop := ∀ m ∈ s.messages, m.ended = true → m.Stored s.system.worker

/-- The execution is about to commit something else than the completion of its job. -/
def TakesBack (x : Exec) : Prop :=
  match x.stage with
  | .returned fin => fin.status ≠ .completed
  | _ => False

instance (x : Exec) : Decidable (TakesBack x) :=
  match h : x.stage with
  | .returned fin => decidable_of_iff (¬ fin.status = .completed) (by simp [TakesBack, h])
  | .thinking | .analysing _ | .finishing _ | .checked .. | .raised =>
    isFalse (by simp [TakesBack, h])

/-- An execution that has sent its message does not die, and none takes back what has been
sent and committed. -/
def NothingLost (s : Log) : Event → Prop
  | .worker (.abort a) => ∀ m ∈ s.messages, m.exec = a → m.ended = true
  | .worker (.commit a) => ∀ x ∈ get s.system.worker.execs a, TakesBack x →
      ∀ m ∈ s.messages, m.ended = true → m.jobId ≠ x.job.id
  | _ => True

/-! ### The invariant -/

/-- The executions whose messages are not over have returned with them. -/
structure Sent (s : Log) : Prop where
  traced : Traced s.system.worker
  returned : ∀ m ∈ s.messages, m.ended = false → ∃ x fin,
    get s.system.worker.execs m.exec = some x ∧ x.stage = .returned fin ∧ x.job.id = m.jobId ∧
      x.analysis = some m.analysis

/-- The jobs of the messages that are over. -/
def endedJobs (s : Log) : List Uuid := (s.messages.filter Message.ended).map Message.jobId

theorem mem_endedJobs {s : Log} {k : Uuid} :
    k ∈ endedJobs s ↔ ∃ m ∈ s.messages, m.ended = true ∧ m.jobId = k := by
  simp [endedJobs, and_assoc]

section Steps

variable {s t : Log} {e : Event} {m : Message}

/-- What an event does: a step of the workers, or none of theirs. -/
theorem worker_of_step (h : step s e = some t) :
    (∃ w, e = .worker w ∧ Runtime.step s.system.worker w = some t.system.worker ∧
      t.messages = s.messages.map (·.after e)) ∨
    (t.system.worker = s.system.worker ∧ (∀ w, e ≠ .worker w) ∧
      t.messages = s.messages ++ (messageOf s.system t.system e).toList) := by
  simp only [step, Option.bind_eq_bind, Option.bind_eq_some_iff, Option.some.injEq] at h
  obtain ⟨system, h, rfl⟩ := h
  have hsame : endedBy e = none → s.messages.map (·.after e) = s.messages := by
    intro he
    refine (List.map_congr_left fun m _ => ?_).trans (List.map_id _)
    simp [Message.after, he]
  cases e with
  | worker w =>
    simp only [Notifications.step, Option.ite_none_left_eq_some, Option.bind_eq_bind,
      Option.bind_eq_some_iff, Option.some.injEq] at h
    obtain ⟨-, worker, hw, rfl⟩ := h
    exact .inl ⟨w, rfl, hw, by simp [messageOf]⟩
  | deliver a =>
    simp only [Notifications.step, Option.bind_eq_bind, Option.bind_eq_some_iff,
      Option.ite_none_left_eq_some, Option.some.injEq, Prod.exists] at h
    obtain ⟨job, analysis, -, -, rfl⟩ := h
    refine .inr ⟨?_, by simp, by rw [hsame rfl]⟩
    by_cases ha : Attempts job analysis
    · dsimp only
      rw [deliver_of_attempts ha]
      split <;> rfl
    · rw [deliver_of_not_attempts ha]
  | wait later =>
    simp only [Notifications.step, Option.ite_none_right_eq_some, Option.some.injEq] at h
    obtain ⟨-, rfl⟩ := h
    exact .inr ⟨rfl, by simp, by rw [hsame rfl]⟩

/-- A message is sent by an execution that has returned with its analysis. -/
theorem returned_of_messageOf {s t : State} (h : messageOf s t e = some m) : m.ended = false ∧
    ∃ x fin, get s.worker.execs m.exec = some x ∧ x.stage = .returned fin ∧ x.job.id = m.jobId ∧
      x.analysis = some m.analysis := by
  unfold messageOf at h
  split at h
  · next a =>
    simp only [Option.ite_none_left_eq_some, Option.map_eq_some_iff, Prod.exists] at h
    obtain ⟨-, job, analysis, hdue, rfl⟩ := h
    simp only [State.due, Option.bind_eq_bind, Option.bind_eq_some_iff] at hdue
    obtain ⟨x, hx, hdue⟩ := hdue
    split at hdue
    · next fin hs =>
      simp only [Option.ite_none_right_eq_some, Option.bind_eq_some_iff, Option.some.injEq,
        Prod.mk.injEq] at hdue
      obtain ⟨-, analysis', ha, job', hjob, rfl, rfl⟩ := hdue
      exact ⟨rfl, x, fin, hx, hs, (key_of_get hjob).symm, ha⟩
    · cases hdue
  · cases h

theorem ended_after : (m.after e).ended = true ↔ m.ended = true ∨ endedBy e = some m.exec := by
  simp [Message.after]

theorem sent_step (h : Sent s) (ht : step s e = some t) : Sent t := by
  rcases worker_of_step ht with ⟨w, rfl, hw, hm⟩ | ⟨hw, -, hm⟩
  · refine ⟨traced_step h.traced hw, fun m' hm' hopen => ?_⟩
    rw [hm] at hm'
    obtain ⟨m, hm, rfl⟩ := List.mem_map.mp hm'
    rw [Bool.eq_false_iff, ne_eq, ended_after, not_or] at hopen
    obtain ⟨hopen, hend⟩ := hopen
    obtain ⟨x, fin, hx, hs, hrest⟩ := h.returned m hm (Bool.eq_false_iff.mpr hopen)
    have hcommit : w ≠ .commit m.exec := by rintro rfl; exact hend rfl
    have habort : w ≠ .abort m.exec := by rintro rfl; exact hend rfl
    exact ⟨x, fin, (effect_of_step hw).get_returned hx hs hcommit habort, hs, hrest⟩
  · refine ⟨hw ▸ h.traced, fun m hm' hopen => ?_⟩
    rw [hw]
    rw [hm] at hm'
    rcases List.mem_append.mp hm' with hm' | hnew
    · exact h.returned m hm' hopen
    · exact (returned_of_messageOf (Option.mem_toList.mp hnew)).2

end Steps

/-! ### What is committed -/

section Committed

variable {s t : Runtime.State} {e : Runtime.Event} {a : ℕ} {x : Exec} {fin : Queue.Finish}
  {analysis : SessionAnalysis}

/-- A committed analysis stays, apart from its latest flag. -/
theorem analysis_row (h : Traced s) (he : Effect s e t) {k : Uuid} {row : SessionAnalysis}
    (hrow : s.db.analyses.row k = some row) :
    ∃ row', t.db.analyses.row k = some row' ∧ row.SameContent row' := by
  cases he with
  | statement _ _ _ _ _ _ he =>
    refine ⟨row, ?_, rfl⟩
    rw [Table.row] at hrow ⊢
    exact he.committed.2 ▸ hrow
  | commit => exact h.holds.content.seen h.holds.consistent (fun _ => rfl) hrow
  | _ => exact ⟨row, hrow, rfl⟩

/-- The analysis that an execution has returned with is pending, and not yet committed. -/
theorem pending_analysis (h : Traced s) (hx : get s.execs a = some x)
    (hs : x.stage = .returned fin) (ha : x.analysis = some analysis) :
    s.db.analyses.inserts (.exec a) = [analysis] ∧ s.db.analyses.row analysis.id = none ∧
      analysis.analysisJobId = some x.job.id ∧ fin.status = .completed := by
  have hins : s.db.analyses.inserts (.exec a) = [analysis] := by
    rw [h.holds.inserts, storedBy_of_get hx, Exec.stored, hs, ha]
    rfl
  have hx' := h.execs a x hx
  simp only [Exec.Traced, hs] at hx'
  exact ⟨hins, (h.holds.consistent.inserted (.exec a) analysis (by simp [hins])).2,
    hx' analysis ha⟩

/-- The commit of the execution stores it. -/
theorem row_commit (h : Traced s) (hx : get s.execs a = some x) (hs : x.stage = .returned fin)
    (ha : x.analysis = some analysis) :
    (s.db.analyses.commit (.exec a)).row analysis.id = some analysis := by
  obtain ⟨hins, hnone, -⟩ := pending_analysis h hx hs ha
  rw [Table.commit_row, h.holds.consistent.seen_of_new hnone, hins, get_singleton]
  exact if_pos rfl

end Committed

/-! ### The guarded runs -/

/-- The invariant of the runs that lose nothing. -/
structure Kept (s : Log) : Prop extends Sent s where
  secured : Secured (· = .completed) (endedJobs s) s.system.worker
  analyses : ∀ m ∈ s.messages, m.ended = true → ∃ row ∈ s.system.worker.db.analyses.row m.analysis.id,
    m.analysis.SameContent row ∧ row.analysisJobId = some m.jobId

section Kept

variable {s t : Log} {e : Event}

theorem Kept.durable (h : Kept s) : Durable s := fun m hm hend =>
  ⟨h.secured.rows _ (mem_endedJobs.mpr ⟨m, hm, hend, rfl⟩), h.analyses m hm hend⟩

/-- Events after which no other messages are over. -/
theorem Kept.frame (h : Kept s) (ht : Sent t)
    (hsecured : Secured (· = .completed) (endedJobs s) t.system.worker)
    (hrow : ∀ k row, s.system.worker.db.analyses.row k = some row →
      ∃ row', t.system.worker.db.analyses.row k = some row' ∧ row.SameContent row')
    (hm : ∀ m' ∈ t.messages, m'.ended = true → ∃ m ∈ s.messages, m.ended = true ∧
      m'.jobId = m.jobId ∧ m'.analysis = m.analysis) : Kept t := by
  refine ⟨ht, hsecured.subset fun k hk => ?_, fun m' hm' hend => ?_⟩
  · obtain ⟨m', hm', hend, rfl⟩ := mem_endedJobs.mp hk
    obtain ⟨m, hold, hend, hj, -⟩ := hm m' hm' hend
    exact mem_endedJobs.mpr ⟨m, hold, hend, hj.symm⟩
  · obtain ⟨m, hold, hend, hj, ha⟩ := hm m' hm' hend
    obtain ⟨row, hr, hsame, hbound⟩ := h.analyses m hold hend
    obtain ⟨row', hr', hsame'⟩ := hrow _ row hr
    rw [ha, hj]
    exact ⟨row', hr', hsame'.trans hsame, hsame'.analysisJobId.trans hbound⟩

/-- The commit of an execution stores its message. -/
theorem Kept.commit (h : Kept s) {a : ℕ} (hok : NothingLost s (.worker (.commit a))) (ht : Sent t)
    (hw : Runtime.step s.system.worker (.commit a) = some t.system.worker)
    (hm : t.messages = s.messages.map (·.after (.worker (.commit a)))) : Kept t := by
  have he := effect_of_step hw
  obtain ⟨x, fin, hx, hs, hjobs, hdb⟩ : ∃ x fin, get s.system.worker.execs a = some x ∧
      x.stage = .returned fin ∧ t.system.worker.jobs = s.system.worker.jobs.commit (.exec a) ∧
      t.system.worker.db.analyses = s.system.worker.db.analyses.commit (.exec a) := by
    generalize t.system.worker = w at he
    cases he with
    | commit x fin hx hs => exact ⟨x, fin, hx, hs, rfl, rfl⟩
  -- a message that is over now was over before, or it is the one of this execution
  have hcases : ∀ m' ∈ t.messages, m'.ended = true → ∃ m ∈ s.messages, m'.jobId = m.jobId ∧
      m'.analysis = m.analysis ∧ (m.ended = true ∨ x.job.id = m.jobId ∧ x.analysis = some m.analysis) := by
    intro m' hm' hend
    rw [hm] at hm'
    obtain ⟨m, hold, rfl⟩ := List.mem_map.mp hm'
    refine ⟨m, hold, rfl, rfl, ?_⟩
    by_cases hbefore : m.ended = true
    · exact .inl hbefore
    · obtain ⟨y, -, hy, -, hj, ha⟩ := h.returned m hold (Bool.eq_false_iff.mpr hbefore)
      obtain rfl : a = m.exec := Option.some.inj ((ended_after.mp hend).resolve_left hbefore)
      obtain rfl : x = y := Option.some.inj (hx.symm.trans hy)
      exact .inr ⟨hj, ha⟩
  refine ⟨ht, h.secured.commit h.traced.wf hx hs hjobs (fun k hk => ?_) (fun hk => ?_),
    fun m' hm' hend => ?_⟩
  · obtain ⟨m', hm', hend, rfl⟩ := mem_endedJobs.mp hk
    obtain ⟨m, hold, hj, -, hbefore | hnow⟩ := hcases m' hm' hend
    · exact .inl (mem_endedJobs.mpr ⟨m, hold, hbefore, hj.symm⟩)
    · exact .inr (hj.trans hnow.1.symm)
  · obtain ⟨m', hm', hend, hid⟩ := mem_endedJobs.mp hk
    obtain ⟨m, hold, hj, -, hbefore | hnow⟩ := hcases m' hm' hend
    · by_contra hfin
      have htakes : TakesBack x := by
        unfold TakesBack
        rw [hs]
        exact hfin
      exact hok x hx htakes m hold hbefore (hj.symm.trans hid)
    · exact (pending_analysis h.traced hx hs hnow.2).2.2.2
  · obtain ⟨m, hold, hj, ha, hbefore | ⟨hid, hx'⟩⟩ := hcases m' hm' hend
    · obtain ⟨row, hr, hsame, hbound⟩ := h.analyses m hold hbefore
      obtain ⟨row', hr', hsame'⟩ := analysis_row h.traced he hr
      rw [ha, hj]
      exact ⟨row', hr', hsame'.trans hsame, hsame'.analysisJobId.trans hbound⟩
    · rw [ha, hj, hdb]
      refine ⟨m.analysis, row_commit h.traced hx hs hx', rfl, ?_⟩
      rw [← hid]
      exact (pending_analysis h.traced hx hs hx').2.2.1

/-- The step lemma. -/
theorem kept_step (h : Kept s) (hok : NothingLost s e) (ht : step s e = some t) : Kept t := by
  have hsent := sent_step h.toSent ht
  rcases worker_of_step ht with ⟨w, rfl, hw, hm⟩ | ⟨hw, -, hm⟩
  · by_cases hc : ∃ a, w = .commit a
    · obtain ⟨a, rfl⟩ := hc
      exact h.commit hok hsent hw hm
    · have hne : ∀ a, w ≠ .commit a := fun a he => hc ⟨a, he⟩
      have he := effect_of_step hw
      refine h.frame hsent (h.secured.step h.traced.wf (by simp) (by simp) he hne)
        (fun k row hrow => analysis_row h.traced he hrow) fun m' hm' hend => ?_
      rw [hm] at hm'
      obtain ⟨m, hold, rfl⟩ := List.mem_map.mp hm'
      refine ⟨m, hold, ?_, rfl, rfl⟩
      rcases ended_after.mp hend with hbefore | hnow
      · exact hbefore
      · cases w with
        | commit a => exact absurd rfl (hne a)
        | abort a => exact hok m hold (Option.some.inj hnow).symm
        | _ => cases hnow
  · refine h.frame hsent (hw ▸ h.secured) (fun k row hrow => ⟨row, hw ▸ hrow, rfl⟩)
      fun m hm' hend => ?_
    rw [hm] at hm'
    rcases List.mem_append.mp hm' with hm' | hnew
    · exact ⟨m, hm', hend, rfl, rfl⟩
    · rw [(returned_of_messageOf (Option.mem_toList.mp hnew)).1] at hend
      cases hend

/-- An event that loses something leads to a state in which it is not stored. -/
theorem nothingLost_of_durable (h : Sent s) (ht : step s e = some t) (hd : Durable t) :
    NothingLost s e := by
  rcases worker_of_step ht with ⟨w, rfl, hw, hm⟩ | ⟨-, hne, -⟩
  · have he := effect_of_step hw
    have hstored : ∀ m ∈ s.messages, m.ended = true ∨ endedBy (.worker w) = some m.exec →
        m.Stored t.system.worker := by
      intro m hold hend
      refine hd (m.after (.worker w)) ?_ (ended_after.mpr hend)
      rw [hm]
      exact List.mem_map_of_mem hold
    generalize t.system.worker = w' at hw he hstored
    cases he with
    | abort x hx =>
      -- its analysis was not committed
      intro m hold hexec
      by_contra hopen
      obtain ⟨y, fin, hy, hs, -, ha⟩ := h.returned m hold (Bool.eq_false_iff.mpr hopen)
      obtain ⟨-, row, hrow, -⟩ := hstored m hold (.inr (congrArg some hexec.symm))
      have hnone := (pending_analysis h.traced hy hs ha).2.1
      rw [Option.mem_def, Table.row, Table.rollback_committed] at hrow
      rw [Table.row, hrow] at hnone
      cases hnone
    | @commit a x fin hx hs =>
      intro y hy htakes m hold hend hid
      obtain rfl : x = y := Option.some.inj (hx.symm.trans hy)
      obtain ⟨⟨job, hjob, hcompleted⟩, -⟩ := hstored m hold (.inl hend)
      obtain ⟨r, hr, hstatus⟩ := h.traced.wf.pending hx hs
      rw [hid, Option.mem_def, h.traced.wf.commit_row_of_update hr] at hjob
      obtain rfl := Option.some.inj hjob
      unfold TakesBack at htakes
      rw [hs] at htakes
      exact htakes (hstatus.symm.trans hcompleted)
    | _ => trivial
  · cases e with
    | worker w => exact absurd rfl (hne w)
    | _ => trivial

end Kept

/-- Along a run every message whose execution has ended is stored, exactly when no execution
dies after it has sent its message and none takes back what has been sent and committed. -/
theorem durable_iff_nothingLost {jobs : List AnalysisJob} {threads : List AnalysisThread}
    {analyses : List SessionAnalysis} (hj : DistinctKeys jobs) (ha : DistinctKeys analyses)
    (now : Time) (es : List Event) :
    Always step Durable (idle jobs threads analyses now) es ↔
      Guarded step NothingLost (idle jobs threads analyses now) es := by
  have hsent : Sent (idle jobs threads analyses now) := by
    refine ⟨traced_quiet hj threads ha, ?_⟩
    simp [idle]
  constructor
  · exact guarded_of_always (fun _ _ _ h ht => sent_step h ht)
      (fun _ _ _ h _ ht hd => nothingLost_of_durable h ht hd) hsent
  · intro hg
    refine (always_of_guarded (fun _ _ _ h hok ht => kept_step h hok ht) ?_ hg).mono
      fun _ h => h.durable
    exact ⟨hsent, ⟨by simp [endedJobs, idle], by simp [endedJobs, idle]⟩, by simp [idle]⟩

/-! ### Examples -/

instance (s : Log) (e : Event) : Decidable (NothingLost s e) := by
  unfold NothingLost
  split <;> infer_instance

open AtMostOnce (delivers)
open Runtime.Example (job)

theorem durable_delivered : Always step Durable (idle [job] [] [] 0)
    (delivers 0 0 "worker-a" 100 200 0 ++ [.worker (.commit 0)]) :=
  (durable_iff_nothingLost (by simp [DistinctKeys]) distinctKeys_nil 0 _).mpr (by decide)

/-- The execution dies after it has sent its message. -/
theorem run_lost : (run step (idle [job] [] [] 0)
    (delivers 0 0 "worker-a" 100 200 0 ++ [.worker (.abort 0)])).map (fun s =>
      (s.messages.map fun m => (m.jobId, m.ended),
        (s.system.worker.jobs.row 1).map AnalysisJob.status)) =
    some ([(1, true)], some .running) := by
  decide

/-- The user has a message about a job that is not completed. -/
theorem sent_and_lost : ¬ ∀ jobs threads analyses, DistinctKeys jobs → DistinctKeys analyses →
    ∀ now es, Always step Durable (idle jobs threads analyses now) es := by
  intro h
  obtain ⟨s, hs, hl⟩ := Option.map_eq_some_iff.mp run_lost
  obtain ⟨hm, hrow⟩ := Prod.mk.inj hl
  have hd := (h [job] [] [] (by simp [DistinctKeys]) distinctKeys_nil 0 _).of_run hs
  obtain ⟨m, hmem, hfields⟩ := List.mem_map.mp (hm ▸ List.mem_singleton_self ((1 : Uuid), true))
  obtain ⟨hid, hend⟩ := Prod.mk.inj hfields
  obtain ⟨⟨row, hr, hcompleted⟩, -⟩ := hd m hmem hend
  rw [Option.mem_def, hid] at hr
  rw [hr, Option.map_some, hcompleted] at hrow
  cases hrow

end LiberNovus.Notifications.Durability

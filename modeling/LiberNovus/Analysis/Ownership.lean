import LiberNovus.Analysis.Latest
import LiberNovus.Analysis.LiveThreads

/-! A thread never changes its session, so the analyses of a thread are all in the session
of the thread. The invariant `Kept` of every run adds this, and the latest flags, to that
of the live threads. -/

namespace LiberNovus.Analysis

open Rows ReadCommitted

def SameSession (c v : AnalysisThread) : Prop := v.sessionId = c.sessionId

/-- There is a thread `k` of session `sessionId`, committed or inserted by `a`. -/
def OfSession {τ : Type*} (T : Table τ Uuid Uuid AnalysisThread) (a : τ) (k sessionId : Uuid) :
    Prop :=
  (∃ th, T.row k = some th ∧ th.sessionId = sessionId) ∨
    ∃ th ∈ T.inserts a, th.id = k ∧ th.sessionId = sessionId

/-- The thread that the transaction has found exists. -/
def Stage.Owned {τ : Type*} (T : Table τ Uuid Uuid AnalysisThread) (a : τ) : Stage → Prop
  | .applying _ _ _ thread => ∀ th ∈ thread, OfSession T a th.id th.sessionId
  | .resolved _ persist => OfSession T a persist.prepared.thread.id persist.prepared.thread.sessionId
  | _ => True

section Threads

variable {τ : Type*} {T T' : Table τ Uuid Uuid AnalysisThread} {a b : τ} {k sessionId : Uuid}

theorem OfSession.congr (h : OfSession T a k sessionId) (hc : T'.committed = T.committed)
    (hi : T'.inserts a = T.inserts a) : OfSession T' a k sessionId := by
  unfold OfSession Table.row at h ⊢
  rwa [hc, hi]

theorem Stage.Owned.congr {stage : Stage} (h : stage.Owned T a) (hc : T'.committed = T.committed)
    (hi : T'.inserts a = T.inserts a) : stage.Owned T' a := by
  unfold Stage.Owned at h ⊢
  split
  · exact fun th hth => (h th hth).congr hc hi
  · exact h.congr hc hi
  · trivial

variable [DecidableEq τ]

theorem OfSession.write (h : OfSession T a k sessionId) (k' : Uuid)
    {f : AnalysisThread → AnalysisThread}
    (hf : ∀ th, (f th).id = th.id ∧ (f th).sessionId = th.sessionId) :
    OfSession (T.write a k' f) a k sessionId := by
  rcases h with ⟨th, hth, hs⟩ | ⟨th, hth, hk, hs⟩
  · exact .inl ⟨th, by rwa [Table.row, Table.write_committed], hs⟩
  · refine .inr ?_
    rcases Table.write_inserts (T := T) (a := a) (k := k') f with he | he <;> rw [he]
    · exact ⟨th, hth, hk, hs⟩
    · refine ⟨_, List.mem_map_of_mem hth, ?_⟩
      split
      · exact ⟨(hf th).1.trans hk, (hf th).2.trans hs⟩
      · exact ⟨hk, hs⟩

variable (hc : T.Consistent) (he : T.Evolves fun _ => SameSession)
include hc he

omit [DecidableEq τ] in
/-- What a transaction finds is there. -/
theorem ofSession_of_seen {th : AnalysisThread} (h : T.seen a k = some th) :
    OfSession T a th.id th.sessionId := by
  have hk : th.id = k := key_of_get h
  cases hr : T.row k with
  | none =>
    rw [hc.seen_of_new hr] at h
    exact .inr ⟨th, mem_of_get h, rfl, rfl⟩
  | some c =>
    obtain ⟨v, hv, hs⟩ := he.seen hc (fun _ => rfl) hr
    obtain rfl := Option.some.inj (h.symm.trans hv)
    exact .inl ⟨c, hk ▸ hr, hs.symm⟩

/-- After its commit the thread is committed. -/
theorem OfSession.committed (h : OfSession T a k sessionId) :
    ∃ th, (T.commit a).row k = some th ∧ th.sessionId = sessionId := by
  rcases h with ⟨th, hth, rfl⟩ | ⟨th, hth, rfl, rfl⟩
  · exact he.commit_row hc (fun _ => rfl) hth
  · refine ⟨th, ?_, rfl⟩
    show T.seen a (key th) = some th
    rw [hc.seen_of_new (hc.inserted a th hth).2]
    exact get_of_mem (hc.uniqueInserts a) hth

theorem OfSession.commit (h : OfSession T a k sessionId) (hb : a ≠ b) :
    OfSession (T.commit b) a k sessionId := by
  rcases h with ⟨th, hth, rfl⟩ | h
  · exact .inl (he.commit_row hc (fun _ => rfl) hth)
  · refine .inr ?_
    rwa [show (T.commit b).inserts a = T.inserts a from (Table.rollback_work_of_ne hb).2]

theorem Stage.Owned.commit {stage : Stage} (h : stage.Owned T a) (hb : a ≠ b) :
    stage.Owned (T.commit b) a := by
  unfold Stage.Owned at h ⊢
  split
  · exact fun th hth => (h th hth).commit hc he hb
  · exact OfSession.commit hc he h hb
  · trivial

end Threads

section Statement

variable {τ : Type*} [DecidableEq τ] {db db' : Tables τ} {a : τ} {id : Uuid} {now : Time}
  {x x' : Transaction}

/-- No statement moves a thread to another session. -/
theorem sameSession_effect (he : x.Effect db a id now db' x') (hc : db.threads.Consistent)
    (hs : db.threads.Evolves fun _ => SameSession) :
    db'.threads.Evolves fun _ => SameSession := by
  cases he with
  | undo => exact hs.rollback a
  | status attempt decision commands thread t type f hf =>
    refine hs.write hc (fun _ => rfl) fun c r _ _ hR => ?_
    rcases hf with ⟨-, rfl⟩ | ⟨-, rfl⟩ <;> exact hR
  | idle _ _ _ _ _ hfree =>
    exact hs.writeAll hc (fun _ => rfl) (fun _ => rfl) (fun _ _ _ hR => hR) hfree
  | insert => exact hs.insert
  | persist _ _ _ _ _ he =>
    cases he with
    | touch => exact hs.write hc (fun _ => rfl) fun _ _ _ _ hR => hR
    | _ => exact hs
  | _ => exact hs

/-- Every statement leaves its transaction with a thread that exists. -/
theorem owned_effect (he : x.Effect db a id now db' x') (hc : db.threads.Consistent)
    (hs : db.threads.Evolves fun _ => SameSession) (ho : x.stage.Owned db.threads a) :
    x'.stage.Owned db'.threads a := by
  cases he with
  | session | missing | create | idle => trivial
  | decide => simp [Transaction.goto, Stage.Owned]
  | undo attempt e =>
    cases e with
    | value => trivial
    | concurrency =>
      simp only [Transaction.goto, Transaction.handle]
      split <;> trivial
  | enter attempt decision thread hp =>
    rw [hp] at ho
    exact ho thread rfl
  | found attempt decision commands thread thread' t hp hseen =>
    intro th hth
    obtain rfl := Option.some.inj hth
    exact ofSession_of_seen hc hs hseen
  | status attempt decision commands thread t type f hf hp =>
    rw [hp] at ho
    refine fun th hth => (ho th hth).write t fun r => ?_
    rcases hf with ⟨-, rfl⟩ | ⟨-, rfl⟩ <;> exact ⟨rfl, rfl⟩
  | insert attempt decision commands =>
    intro th hth
    obtain rfl := Option.some.inj hth
    exact .inr ⟨_, by simp [Table.insert], rfl, rfl⟩
  | persist decision persist persist' _ hp he =>
    rw [hp] at ho
    show OfSession _ a persist'.prepared.thread.id persist'.prepared.thread.sessionId
    rw [he.prepared]
    cases he with
    | touch => exact OfSession.write ho _ fun _ => ⟨rfl, rfl⟩
    | _ => exact ho

/-- The persistence that the transaction is at. -/
def Transaction.persist (x : Transaction) : Option Persist :=
  match x.stage with
  | .resolved _ persist => some persist
  | _ => none

theorem Transaction.stored_eq (x : Transaction) : x.stored = x.persist.bind (·.phase.stored) := by
  obtain ⟨request, stage⟩ := x
  cases stage <;> rfl

/-- A statement is one of the persistence, or leaves the analyses alone. -/
theorem Transaction.persist_of_step {sessions : List Session.DreamSession}
    (h : x.step sessions db a id now = some (db', x')) :
    (∃ p p', x.persist = some p ∧ x'.persist = some p' ∧ p.step db a id now = some (db', p')) ∨
      x.persist = none ∧ db'.analyses = db.analyses ∧
        ∀ p ∈ x'.persist, p.phase = .building := by
  cases hs : x.stage with
  | resolved decision persist =>
    rw [step, hs] at h
    obtain ⟨⟨db₁, persist'⟩, hp, he⟩ := Option.map_eq_some_iff.mp h
    cases he
    exact .inl ⟨persist, persist', by rw [Transaction.persist, hs], rfl, hp⟩
  | opened | snapshot | applying | idling | inserting | raised =>
    refine .inr ⟨by rw [persist, hs], ?_⟩
    cases effect_of_step h with
    | persist _ _ _ _ hp => rw [hs] at hp; cases hp
    | undo attempt e =>
      refine ⟨rfl, fun p hp => ?_⟩
      cases e with
      | value => cases hp
      | concurrency =>
        unfold persist goto handle at hp
        cases hu : attempt.reresolveUsed <;> simp [hu] at hp
    | enter =>
      refine ⟨rfl, fun p hp => ?_⟩
      obtain rfl := Option.some.inj hp
      rfl
    | _ => exact ⟨rfl, by simp [persist, goto]⟩

end Statement

/-! ### Every run -/

namespace LiveThreads

variable {s t : State}

def Tx.persist : Tx → Option Persist
  | .analysis x => x.persist
  | .closing .. => none

/-- The persistence that each open transaction is at. -/
def work (s : State) (a : ℕ) : Option Persist := (s.txs a).bind Tx.persist

/-- Every analysis is in the session of its thread. -/
def Placed (db : Tables ℕ) : Prop :=
  ∀ y ∈ db.analyses.committed, ∃ th, db.threads.row y.threadId = some th ∧
    th.sessionId = y.sessionId

structure Kept (s : State) : Prop where
  wf : Wf s
  flags : Flags s.db.analyses (work s)
  sessions : s.db.threads.Evolves fun _ => SameSession
  owned : ∀ a x, s.txs a = some (.analysis x) → x.stage.Owned s.db.threads a
  placed : Placed s.db

theorem work_update (s : State) (a : ℕ) (tx : Option Tx) :
    (fun b => (Function.update s.txs a tx b).bind Tx.persist) =
      Function.update (work s) a (tx.bind Tx.persist) :=
  Function.comp_update (fun o : Option Tx => o.bind Tx.persist) s.txs a tx

theorem stored_eq_work (s : State) (a : ℕ) : stored s a = (work s a).bind (·.phase.stored) := by
  unfold stored work
  cases s.txs a with
  | none => rfl
  | some tx =>
    cases tx with
    | analysis x => exact x.stored_eq
    | closing => rfl

theorem inserts_eq_stored (h : Kept s) (a : ℕ) :
    s.db.analyses.inserts a = (stored s a).toList := h.wf.holds.inserts a

theorem kept_quiet (sessions : List Session.DreamSession) {threads : List AnalysisThread}
    {analyses : List SessionAnalysis} (ht : DistinctKeys threads) (ha : DistinctKeys analyses)
    (hp : Placed (quiet sessions threads analyses).db) : Kept (quiet sessions threads analyses) :=
  ⟨wf_quiet sessions ht ha, flags_ofRows analyses, Table.evolves_ofRows threads, by simp [quiet], hp⟩

/-- The row that a commit puts in place of a committed one. -/
theorem overlay_cases (h : Kept s) (a : ℕ) {c : SessionAnalysis}
    (hc : c ∈ s.db.analyses.committed) {v : SessionAnalysis}
    (hv : v = (s.db.analyses.updates a c.id).getD c) : Clears (work s) a c v := by
  subst hv
  cases hu : s.db.analyses.updates a c.id with
  | none => exact .inl rfl
  | some v => exact h.flags.clears a c.id v c hu (get_of_mem h.wf.holds.consistent.unique hc)

/-- A committed analysis stays in the session of its thread, and a new one joins it. -/
theorem placed_commit (h : Kept s) (a : ℕ) :
    Placed ⟨s.db.threads.commit a, s.db.analyses.commit a⟩ := by
  intro y hy
  rw [Table.commit_committed] at hy
  rcases mem_view h.wf.holds.consistent h.flags.clears hy with ⟨c, hc, -, hcl⟩ | hy
  · obtain ⟨th, hth, hs⟩ := h.placed c hc
    obtain ⟨th', hth', hs'⟩ := h.sessions.commit_row (a := a) h.wf.consistent (fun _ => rfl) hth
    have hyc : y.threadId = c.threadId ∧ y.sessionId = c.sessionId := by
      rcases hcl with rfl | ⟨rfl, -⟩ <;> exact ⟨rfl, rfl⟩
    exact ⟨th', by rw [hyc.1, hth'], by rw [hyc.2, ← hs]; exact hs'⟩
  · rw [inserts_eq_stored h, Option.mem_toList] at hy
    unfold stored at hy
    obtain ⟨tx, htx, hy⟩ := Option.bind_eq_some_iff.mp hy
    cases tx with
    | closing => cases hy
    | analysis x =>
      have howned := h.owned a x htx
      rw [Tx.stored, x.stored_eq] at hy
      obtain ⟨p, hp, hy⟩ := Option.bind_eq_some_iff.mp hy
      have haimed := h.flags.aimed a p (by rw [work, htx]; exact hp)
      have hthread := (haimed.row y (Phase.row_of_stored hy)).1
      have hsession := haimed.checked y (Phase.checked_of_stored hy)
      have hstage : OfSession s.db.threads a p.prepared.thread.id p.prepared.thread.sessionId := by
        unfold Transaction.persist at hp
        split at hp <;> cases hp
        next hs => rwa [hs] at howned
      rw [hthread, hsession]
      exact hstage.committed h.wf.consistent h.sessions

/-- One transaction moves, the others keep the threads that they have found. -/
theorem owned_update {T : Table ℕ Uuid Uuid AnalysisThread} {a : ℕ} {tx : Option Tx}
    (h : ∀ b x, b ≠ a → s.txs b = some (.analysis x) → x.stage.Owned T b)
    (ha : ∀ x, tx = some (.analysis x) → x.stage.Owned T a) (b : ℕ) (x : Transaction)
    (hx : Function.update s.txs a tx b = some (.analysis x)) : x.stage.Owned T b := by
  by_cases hb : b = a
  · subst hb
    rw [Function.update_self] at hx
    exact ha x hx
  · rw [Function.update_of_ne hb] at hx
    exact h b x hb hx

theorem kept_statement {a : ℕ} {id : Uuid} {now : Time} (h : Kept s)
    (ht : step s (.step a id now) = some t) : Kept t := by
  have hwf := wf_step h.wf ht
  simp only [step, Option.bind_eq_bind, Option.bind_eq_some_iff] at ht
  obtain ⟨tx, htx, ht⟩ := ht
  cases tx with
  | closing sessionId written =>
    simp only [Option.ite_none_right_eq_some, Option.some.injEq] at ht
    obtain ⟨-, rfl⟩ := ht
    refine ⟨hwf, ?_, h.sessions, owned_update (fun b x _ => h.owned b x) (by simp), h.placed⟩
    unfold work
    rw [work_update]
    exact h.flags.enter (by simp [work, htx, Tx.persist]) (by simp [Tx.persist])
  | analysis x =>
    simp only [Option.bind_eq_some_iff, Option.some.injEq, Prod.exists] at ht
    obtain ⟨db', x', hstep, rfl⟩ := ht
    have he := Transaction.effect_of_step hstep
    refine ⟨hwf, ?_, sameSession_effect he h.wf.consistent h.sessions, owned_update ?_ ?_, ?_⟩
    · unfold work
      rw [work_update]
      have hwork : work s a = x.persist := by rw [work, htx]; rfl
      rcases Transaction.persist_of_step hstep with ⟨p, p', hp, hp', hstep'⟩ | ⟨hn, hdb, hnew⟩
      · obtain ⟨haimed, hkeep⟩ := (h.flags.aimed a p (hwork.trans hp)).step hstep'
        have hins : s.db.analyses.inserts a = p.phase.stored.toList := by
          rw [inserts_eq_stored h, stored_eq_work, hwork, hp, Option.bind_some]
        have hf := h.flags.effect h.wf.holds.consistent (hwork.trans hp) hins
          (Persist.effect_of_step hstep') haimed hkeep
        simpa [Tx.persist, hp'] using hf
      · dsimp only
        rw [hdb]
        refine h.flags.enter (hwork.trans hn) fun p hp => ?_
        have hb := hnew p hp
        exact ⟨by simp [hb, Phase.row], by simp [hb, Phase.checked]⟩
    · exact fun b y hb hy => (h.owned b y hy).congr he.committed.1 (he.frame hb).2
    · rintro y ⟨⟩
      exact owned_effect he h.wf.consistent h.sessions (h.owned a x htx)
    · have hp := h.placed
      unfold Placed Table.row at hp ⊢
      rwa [he.committed.1, he.committed.2]

theorem kept_step {e : Event} (h : Kept s) (ht : step s e = some t) : Kept t := by
  have hwf := wf_step h.wf ht
  cases e with
  | begin a request =>
    simp only [step, Option.ite_none_right_eq_some, Option.some.injEq] at ht
    obtain ⟨hn, rfl⟩ := ht
    refine ⟨hwf, ?_, h.sessions, owned_update (fun b x _ => h.owned b x) ?_, h.placed⟩
    · unfold work
      rw [work_update]
      exact h.flags.enter (by simp [work, hn]) (by simp [Tx.persist, Transaction.persist])
    · rintro x ⟨⟩
      trivial
  | close a sessionId =>
    simp only [step, Option.ite_none_right_eq_some, Option.some.injEq] at ht
    obtain ⟨hn, rfl⟩ := ht
    refine ⟨hwf, ?_, h.sessions, owned_update (fun b x _ => h.owned b x) (by simp), h.placed⟩
    unfold work
    rw [work_update]
    exact h.flags.enter (by simp [work, hn]) (by simp [Tx.persist])
  | step a id now => exact kept_statement h ht
  | commit a =>
    simp only [step, Option.bind_eq_bind, Option.bind_eq_some_iff, Option.ite_none_right_eq_some,
      Option.some.injEq] at ht
    obtain ⟨tx, -, -, rfl⟩ := ht
    refine ⟨hwf, ?_, h.sessions.commit h.wf.consistent a, owned_update ?_ (by simp),
      placed_commit h a⟩
    · unfold work
      rw [work_update]
      exact h.flags.commit h.wf.holds.consistent a
    · exact fun b x hb hx => Stage.Owned.commit h.wf.consistent h.sessions (h.owned b x hx) hb
  | rollback a =>
    simp only [step, Option.ite_none_left_eq_some, Option.some.injEq] at ht
    obtain ⟨-, rfl⟩ := ht
    refine ⟨hwf, ?_, h.sessions.rollback a, owned_update ?_ (by simp), h.placed⟩
    · unfold work
      rw [work_update]
      exact h.flags.rollback a
    · exact fun b x hb hx => (h.owned b x hx).congr rfl (Table.rollback_work_of_ne hb).2

end LiveThreads

end LiberNovus.Analysis

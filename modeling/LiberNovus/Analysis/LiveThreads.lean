import LiberNovus.Foundation.Runs
import LiberNovus.Analysis.Transaction

/-! Any number of concurrent analysis transactions and session closings.

Proved: in every run in which no transaction commits after another one has changed
the status that its decision relies on, every committed analysis goes into a thread
that is active at that moment, a closed thread stays closed, and an idle thread
never becomes active again. -/

namespace LiberNovus.Analysis.LiveThreads

open Rows ReadCommitted Runs Session

/-- An open transaction: an analysis, or the closing of a session. -/
inductive Tx where
  | analysis (x : Transaction)
  | closing (sessionId : Uuid) (written : Bool)
  deriving DecidableEq

/-- The tables and the open transactions. `overtaken` records that another
transaction committed a status that the decision of the transaction excludes. -/
structure State where
  sessions : Table ℕ Uuid Empty DreamSession
  db : Tables ℕ
  txs : ℕ → Option Tx
  overtaken : ℕ → Bool

inductive Event where
  | begin (a : ℕ) (request : Request)
  | close (a : ℕ) (sessionId : Uuid)
  | step (a : ℕ) (id : Uuid) (now : Time)
  | commit (a : ℕ)
  | rollback (a : ℕ)
  deriving DecidableEq

/-- The transaction has decided on a thread. -/
def Decided : Stage → Bool
  | .applying .. | .idling .. | .inserting .. | .resolved .. => true
  | .opened | .snapshot _ | .raised => false

/-- The thread whose status the rest of a transaction relies on, and the statuses that
suit it: a thread to continue has to stay active, a thread to mark idle must not be
closed before. -/
def stake : Stage → Option (Uuid × (ThreadStatus → Bool))
  | .applying _ decision commands _ =>
    if decision.action = .continue then
      decision.targetThreadId.map (·, fun status => status = .active)
    else match commands with
      | ⟨.markIdle, some t⟩ :: _ => some (t, fun status => status ≠ .closed)
      | _ => none
  | .resolved decision _ =>
    if decision.action = .continue then
      decision.targetThreadId.map (·, fun status => status = .active)
    else none
  | _ => none

/-- The stage's decision does not suit the committed statuses `T`. -/
def Broken (T : Table ℕ Uuid Uuid AnalysisThread) : Option Tx → Prop
  | some (.analysis x) => ∃ p ∈ stake x.stage, ∃ thread ∈ T.row p.1, p.2 thread.status = false
  | _ => False

instance (T : Table ℕ Uuid Uuid AnalysisThread) : ∀ tx, Decidable (Broken T tx)
  | some (.analysis _) => inferInstanceAs (Decidable (∃ _ ∈ _, ∃ _ ∈ _, _))
  | some (.closing ..) => isFalse id
  | none => isFalse id

/-- The stages in which the code commits: the analysis is persisted, or an exception
left nothing of the savepoint, or came up before the persistence wrote anything. -/
def Committable : Tx → Bool
  | .analysis x => match x.stage with
    | .resolved _ persist => match persist.phase with
      | .persisted _ => true
      | .refused => true
      | _ => false
    | .raised => true
    | _ => false
  | .closing _ written => written

/-- One event. A statement that has to wait is not enabled. -/
def step (s : State) : Event → Option State
  | .begin a request =>
    if s.txs a = none then
      some { s with
        txs := Function.update s.txs a (some (.analysis ⟨request, .opened⟩))
        overtaken := Function.update s.overtaken a false }
    else none
  | .close a sessionId =>
    if s.txs a = none then
      some { s with txs := Function.update s.txs a (some (.closing sessionId false)) }
    else none
  | .step a id now => do
    match ← s.txs a with
    | .analysis x =>
      let (db, x') ← x.step (s.sessions.view a) s.db a id now
      some { s with
        db := db
        txs := Function.update s.txs a (some (.analysis x'))
        overtaken := Function.update s.overtaken a
          (s.overtaken a && Decided x.stage && Decided x'.stage) }
    | .closing sessionId written =>
      if written = false ∧ s.sessions.Free a sessionId then
        some { s with
          sessions := s.sessions.write a sessionId DreamSession.closed
          txs := Function.update s.txs a (some (.closing sessionId true)) }
      else none
  | .commit a => do
    let tx ← s.txs a
    if Committable tx then
      let db : Tables ℕ := ⟨s.db.threads.commit a, s.db.analyses.commit a⟩
      some {
        sessions := s.sessions.commit a
        db := db
        txs := Function.update s.txs a none
        overtaken := fun b => s.overtaken b || decide (Broken db.threads (s.txs b)) }
    else none
  | .rollback a =>
    if s.txs a = none then none
    else some { s with
      sessions := s.sessions.rollback a
      db := ⟨s.db.threads.rollback a, s.db.analyses.rollback a⟩
      txs := Function.update s.txs a none }

/-- A transaction that commits was not overtaken. -/
def NotOvertaken (s : State) : Event → Prop
  | .commit a => s.overtaken a = false
  | _ => True

def quiet (sessions : List DreamSession) (threads : List AnalysisThread)
    (analyses : List SessionAnalysis) : State :=
  ⟨Table.ofRows sessions, ⟨Table.ofRows threads, Table.ofRows analyses⟩, fun _ => none,
    fun _ => false⟩

/-- The committed status of a thread. -/
def status (s : State) (t : Uuid) : Option ThreadStatus :=
  (s.db.threads.row t).map AnalysisThread.status

/-- Every analysis that a step commits goes into a thread that is active then. -/
def IntoActive (s : State) (_ : Event) (t : State) : Prop :=
  ∀ r ∈ t.db.analyses.committed, s.db.analyses.row r.id = none → status t r.threadId = some .active

/-! ### The order of statuses -/

/-- `active`, then `idle`, then `closed`. -/
def rank : ThreadStatus → ℕ
  | .active => 0
  | .idle => 1
  | .closed => 2

/-- No committed thread loses rank. -/
def Rising (s : State) (_ : Event) (t : State) : Prop :=
  ∀ k st, status s k = some st → ∃ st', status t k = some st' ∧ rank st ≤ rank st'

/-- The pending versions of a transaction that was not overtaken do not lose rank. -/
def Rises (o : ℕ → Bool) (a : ℕ) (c r : AnalysisThread) : Prop :=
  o a = false → rank c.status ≤ rank r.status

/-! ### What one transaction has done -/

/-- The transaction has created the thread and it is active. -/
def Created (T : Table ℕ Uuid Uuid AnalysisThread) (a : ℕ) (thread : AnalysisThread) : Prop :=
  ∃ r ∈ T.inserts a, r.id = thread.id ∧ r.status = .active

/-- The work of transaction `a` on the threads at each stage. -/
inductive Sound (T : Table ℕ Uuid Uuid AnalysisThread) (a : ℕ) (o : Bool) : Stage → Prop
  | undecided {stage : Stage} (hd : Decided stage = false) (hu : T.Untouched a) : Sound T a o stage
  | applying {attempt : Attempt} {decision : DecisionDTO} {commands : List TransitionCommand}
      {thread : Option AnalysisThread} (hp : Transaction.Plan decision commands thread)
      (hu : decision.action = .continue → T.Untouched a)
      (hi : thread = none → T.inserts a = [])
      (hc : ∀ th ∈ thread, decision.action ≠ .continue → Created T a th) :
      Sound T a o (.applying attempt decision commands thread)
  | idling {attempt : Attempt} {decision : DecisionDTO} {actives : List Uuid}
      (ha : decision.action ≠ .continue) (hi : T.inserts a = []) :
      Sound T a o (.idling attempt decision [] actives)
  | inserting {attempt : Attempt} {decision : DecisionDTO} (ha : decision.action ≠ .continue)
      (hi : T.inserts a = []) : Sound T a o (.inserting attempt decision [])
  | continuing {decision : DecisionDTO} {persist : Persist} (ha : decision.action = .continue)
      (ht : decision.targetThreadId = some persist.prepared.thread.id) (hi : T.inserts a = [])
      (hk : ∀ r, T.updates a persist.prepared.thread.id = some r → o = false → r.status = .active)
      (hr : ∀ r, persist.phase.row = some r → r.threadId = persist.prepared.thread.id) :
      Sound T a o (.resolved decision persist)
  | creating {decision : DecisionDTO} {persist : Persist} (ha : decision.action ≠ .continue)
      (hc : Created T a persist.prepared.thread)
      (hr : ∀ r, persist.phase.row = some r → r.threadId = persist.prepared.thread.id) :
      Sound T a o (.resolved decision persist)

/-- What a transaction has done depends on its own work alone. -/
theorem Sound.congr {T T' : Table ℕ Uuid Uuid AnalysisThread} {a : ℕ} {o o' : Bool} {stage : Stage}
    (h : Sound T a o stage) (hu : T'.updates a = T.updates a) (hi : T'.inserts a = T.inserts a)
    (ho : o' = false → o = false) : Sound T' a o' stage := by
  have hunt : T.Untouched a → T'.Untouched a := fun ht => by simpa [Table.Untouched, hu, hi] using ht
  have hcr : ∀ th, Created T a th → Created T' a th := fun th hc => by simpa [Created, hi] using hc
  cases h with
  | undecided hd h => exact .undecided hd (hunt h)
  | applying hp h h' hc =>
    exact .applying hp (fun ha => hunt (h ha)) (fun he => hi.trans (h' he))
      fun th hth ha => hcr th (hc th hth ha)
  | idling ha h => exact .idling ha (hi.trans h)
  | inserting ha h => exact .inserting ha (hi.trans h)
  | continuing ha ht h hk hr =>
    exact .continuing ha ht (hi.trans h) (fun r hu' ho' => hk r (hu ▸ hu') (ho ho')) hr
  | creating ha hc hr => exact .creating ha (hcr _ hc) hr

/-- The ghost is irrelevant as long as the transaction has written nothing. -/
theorem Sound.of_untouched {T : Table ℕ Uuid Uuid AnalysisThread} {a : ℕ} {o o' : Bool}
    {stage : Stage} (h : Sound T a o stage) (hu : T.Untouched a) : Sound T a o' stage := by
  cases h with
  | undecided hd h => exact .undecided hd h
  | applying hp h h' hc => exact .applying hp h h' hc
  | idling ha h => exact .idling ha h
  | inserting ha h => exact .inserting ha h
  | continuing ha ht h hk hr =>
    exact .continuing ha ht h (fun r hr' => by simp [hu.1] at hr') hr
  | creating ha hc hr => exact .creating ha hc hr

/-! ### One statement -/

section Statement

variable {db db' : Tables ℕ} {a : ℕ} {id : Uuid} {now : Time} {x x' : Transaction} {o : ℕ → Bool}

/-- The thread at stake has a committed status that suits the decision. -/
def Suited (T : Table ℕ Uuid Uuid AnalysisThread) (stage : Stage) : Prop :=
  ∀ p ∈ stake stage, ∃ thread, T.row p.1 = some thread ∧ p.2 thread.status = true

theorem undecided_handle (attempt : Attempt) (e : ResolveError) :
    Decided (Transaction.handle attempt e) = false := by
  cases e with
  | value => rfl
  | concurrency =>
    simp only [Transaction.handle]
    split <;> rfl

theorem stake_of_undecided {stage : Stage} (h : Decided stage = false) : stake stage = none := by
  cases stage <;> simp_all [Decided, stake]

theorem Sound.untouched {T : Table ℕ Uuid Uuid AnalysisThread} {o : Bool} {stage : Stage}
    (h : Sound T a o stage) (hd : Decided stage = false) : T.Untouched a := by
  cases h with
  | undecided _ hu => exact hu
  | _ => cases hd

/-- The ghost is reset only where the transaction has no work on the threads. -/
theorem untouched_of_reset (he : x.Effect db a id now db' x') (hs : Sound db.threads a (o a) x.stage)
    (hr : (Decided x.stage && Decided x'.stage) = false) : db'.threads.Untouched a := by
  cases he with
  | undo => exact Table.untouched_rollback
  | session _ hp | missing hp | decide _ hp => exact hs.untouched (by rw [hp]; rfl)
  | enter _ _ _ hp | found _ _ _ _ _ _ hp | status _ _ _ _ _ _ _ _ hp | create _ _ _ _ _ _ hp
  | idle _ _ _ _ hp | insert _ _ _ hp | persist _ _ _ _ hp =>
    simp [hp, Transaction.goto, Transaction.enter, Decided] at hr

theorem rises_self (o : ℕ → Bool) (r : AnalysisThread) : Rises o a r r := fun _ => le_rfl

/-- No statement of a transaction that was not overtaken takes a thread down in rank. -/
theorem rises_effect (he : x.Effect db a id now db' x') (hc : db.threads.Consistent)
    (hr : db.threads.Evolves (Rises o)) (hs : Sound db.threads a (o a) x.stage)
    (hst : o a = false → Suited db.threads x.stage) : db'.threads.Evolves (Rises o) := by
  cases he with
  | undo => exact hr.rollback a
  | status attempt decision commands thread t type f hf hp hfree =>
    refine hr.write hc (rises_self o) fun c r hrow _ _ ho => ?_
    rcases hf with ⟨rfl, rfl⟩ | ⟨rfl, rfl⟩
    · rw [hp] at hs
      have hsuit := hst ho
      rw [hp] at hsuit
      cases hs with
      | applying hplan =>
        cases hplan with
        | markIdle ha =>
          obtain ⟨th, hth, hne⟩ := hsuit (t, fun st => st ≠ .closed) (by simp [stake, ha])
          obtain rfl := Option.some.inj (hrow.symm.trans hth)
          revert hne
          cases h : c.status <;> simp [AnalysisThread.idled, rank]
      | undecided hd => cases hd
    · cases h : c.status <;> simp [AnalysisThread.closed, rank]
  | idle attempt decision commands actives hp hfree =>
    refine hr.writeAll hc (fun _ => rfl) (rises_self o) (fun c r hact hR ho => ?_) hfree
    have hle := hR ho
    rw [hact.2] at hle
    exact hle.trans (by simp [rank])
  | insert => exact hr.insert
  | persist _ _ _ _ _ he =>
    cases he with
    | touch => exact hr.write hc (rises_self o) fun _ _ _ _ hR => hR
    | _ => exact hr
  | _ => exact hr

theorem Created.write {T : Table ℕ Uuid Uuid AnalysisThread} {thread : AnalysisThread}
    (h : Created T a thread) {f : AnalysisThread → AnalysisThread} (k : Uuid)
    (hf : ∀ r, (f r).id = r.id ∧ (f r).status = r.status) : Created (T.write a k f) a thread := by
  obtain ⟨r, hr, hid, hst⟩ := h
  rcases Table.write_inserts (T := T) (a := a) (k := k) f with he | he
  · exact ⟨r, he ▸ hr, hid, hst⟩
  · refine ⟨if key r = k then f r else r, ?_, ?_⟩
    · rw [he]
      exact List.mem_map_of_mem hr
    · split
      · exact ⟨(hf r).1.trans hid, (hf r).2.trans hst⟩
      · exact ⟨hid, hst⟩

theorem inserts_write_of_nil {T : Table ℕ Uuid Uuid AnalysisThread} (h : T.inserts a = []) (k : Uuid)
    (f : AnalysisThread → AnalysisThread) : (T.write a k f).inserts a = [] := by
  rcases Table.write_inserts (T := T) (a := a) (k := k) f with he | he <;> rw [he, h]
  rfl

/-- The persistence statements of a transaction whose thread is resolved. -/
theorem sound_persist {decision : DecisionDTO} {persist persist' : Persist}
    (he : persist.Effect db a id now db' persist') (hc : db.threads.Consistent)
    (hs : Sound db.threads a (o a) (.resolved decision persist))
    (hst : o a = false → Suited db.threads (.resolved decision persist)) :
    Sound db'.threads a (o a) (.resolved decision persist') := by
  have hrow : (∀ r, persist.phase.row = some r → r.threadId = persist.prepared.thread.id) →
      ∀ r, persist'.phase.row = some r → r.threadId = persist'.prepared.thread.id := by
    intro hr r hr'
    rw [he.prepared]
    rcases he.row hr' with hr' | ⟨-, rfl⟩
    · exact hr r hr'
    · rfl
  cases hs with
  | undecided hd => cases hd
  | continuing ha ht hi hk hr =>
    rw [← he.prepared] at ht
    cases he with
    | touch analysis hp hfree =>
      refine .continuing ha ht (inserts_write_of_nil hi _ _) (fun r hu ho => ?_) (hrow hr)
      rcases Table.write_updates hu with hu | ⟨-, -, -, r₀, hr₀, rfl⟩
      · exact hk r hu ho
      · -- the version written over is the transaction's own or the committed one
        obtain ⟨th, hth, hact⟩ := hst ho (persist.prepared.thread.id, fun st => st = .active) (by
          simp only [stake, ha, if_true]
          rw [show decision.targetThreadId = some persist.prepared.thread.id from ht]
          rfl)
        have hseen := hc.seen_of_row (a := a) hth
        rw [hr₀, Option.some.injEq] at hseen
        subst hseen
        cases hup : db.threads.updates a persist.prepared.thread.id with
        | none => simpa [AnalysisThread.persisted] using hact
        | some r => simpa [AnalysisThread.persisted] using hk r hup ho
    | _ => exact .continuing ha ht hi hk (hrow hr)
  | creating ha hcr hr =>
    rw [← he.prepared] at hcr
    cases he with
    | touch => exact .creating ha (hcr.write _ fun _ => ⟨rfl, rfl⟩) (hrow hr)
    | _ => exact .creating ha hcr (hrow hr)

/-- Every statement leaves its transaction with the work of its next stage. -/
theorem sound_effect (he : x.Effect db a id now db' x') (hc : db.threads.Consistent)
    (hs : Sound db.threads a (o a) x.stage) (hst : o a = false → Suited db.threads x.stage) :
    Sound db'.threads a (o a) x'.stage := by
  cases he with
  | undo attempt e => exact .undecided (undecided_handle attempt e) Table.untouched_rollback
  | session _ hp | missing hp => exact .undecided rfl (hs.untouched (by rw [hp]; rfl))
  | decide attempt hp =>
    have hu := hs.untouched (by rw [hp]; rfl)
    exact .applying (Transaction.plan_decide x attempt _).1 (fun _ => hu) (fun _ => hu.2) (by simp)
  | enter attempt decision thread hp =>
    rw [hp] at hs
    cases hs with
    | undecided hd => cases hd
    | applying hplan hu _ hcr =>
      cases hplan with
      | continued ha ht =>
        refine .continuing ha ht (hu ha).2 (fun r hr => ?_) (by simp [Phase.row])
        rw [(hu ha).1] at hr
        cases hr
      | created ha => exact .creating ha (hcr thread rfl ha) (by simp [Phase.row])
  | found attempt decision commands thread thread' t hp hseen =>
    rw [hp] at hs
    cases hs with
    | undecided hd => cases hd
    | applying hplan hu _ _ =>
      cases hplan with
      | «continue» ha ht =>
        have hid : thread'.id = t := key_of_get hseen
        exact .applying (.continued ha (hid ▸ ht)) hu (by simp) fun _ _ hne => absurd ha hne
  | status attempt decision commands thread t type f hf hp =>
    rw [hp] at hs
    cases hs with
    | undecided hd => cases hd
    | applying hplan _ hi _ =>
      cases hplan with
      | markIdle ha | closeThread ha =>
        exact .applying (.createNew ha) (fun h => absurd h ha)
          (fun _ => inserts_write_of_nil (hi rfl) _ _) (by simp)
      | _ => simp at hf
  | create attempt decision commands thread target actives hp =>
    rw [hp] at hs
    cases hs with
    | undecided hd => cases hd
    | applying hplan _ hi _ =>
      cases hplan with
      | createNew ha => exact .idling ha (hi rfl)
  | idle attempt decision commands actives hp =>
    rw [hp] at hs
    cases hs with
    | undecided hd => cases hd
    | idling ha hi => exact .inserting ha (Table.writeAll_inserts_of_nil hi)
  | insert attempt decision commands hp =>
    rw [hp] at hs
    cases hs with
    | undecided hd => cases hd
    | inserting ha hi =>
      refine .applying (.created ha) (fun h => absurd h ha) (by simp) fun th hth _ => ?_
      obtain rfl := Option.some.inj hth
      exact ⟨_, by simp [Table.insert], rfl, rfl⟩
  | persist decision persist persist' _ hp he =>
    rw [hp] at hs hst
    exact sound_persist he hc hs hst

/-- A transaction that has decided comes to rely on nothing more. -/
theorem stake_effect (he : x.Effect db a id now db' x') (hs : Sound db.threads a (o a) x.stage)
    (hd : Decided x.stage = true) (hd' : Decided x'.stage = true) :
    ∀ p ∈ stake x'.stage, p ∈ stake x.stage := by
  cases he with
  | session _ hp | missing hp | decide _ hp => simp [hp, Decided] at hd
  | undo attempt e => simp [Transaction.goto, undecided_handle] at hd'
  | persist decision persist persist' _ hp he => simp [hp, stake, Transaction.goto]
  | enter attempt decision thread hp =>
    rw [hp] at hs ⊢
    cases hs with
    | undecided hd => cases hd
    | applying hplan =>
      cases hplan <;> simp [stake, Transaction.goto, Transaction.enter, *]
  | found attempt decision commands thread thread' t hp =>
    rw [hp] at hs ⊢
    cases hs with
    | undecided hd => cases hd
    | applying hplan =>
      cases hplan with
      | «continue» ha => simp [stake, Transaction.goto, ha]
  | status attempt decision commands thread t type f hf hp =>
    rw [hp] at hs
    cases hs with
    | undecided hd => cases hd
    | applying hplan =>
      cases hplan with
      | markIdle ha | closeThread ha => simp [stake, Transaction.goto, ha]
      | _ => simp at hf
  | create => simp [stake, Transaction.goto]
  | idle => simp [stake, Transaction.goto]
  | insert attempt decision commands hp =>
    rw [hp] at hs
    cases hs with
    | undecided hd => cases hd
    | inserting ha => simp [stake, Transaction.goto, ha]

/-- The statement that decides finds the thread it relies on active; later statements
of a transaction that was not overtaken still find it suited. -/
theorem suited_effect (he : x.Effect db a id now db' x') (hc : db.threads.Consistent)
    (hs : Sound db.threads a (o a) x.stage) (hst : o a = false → Suited db.threads x.stage)
    (ho : (o a && Decided x.stage && Decided x'.stage) = false) :
    Suited db'.threads x'.stage := by
  have hrow : ∀ k, db'.threads.row k = db.threads.row k := fun k => by
    rw [Table.row, Table.row, he.committed.1]
  by_cases hd : Decided x.stage = true ∧ Decided x'.stage = true
  · have ho' : o a = false := by simpa [hd.1, hd.2] using ho
    intro p hp
    rw [hrow]
    exact hst ho' p (stake_effect he hs hd.1 hd.2 p hp)
  · cases he with
    | decide attempt hp =>
      have hu := hs.untouched (by rw [hp]; rfl)
      obtain ⟨hplan, hactive⟩ := Transaction.plan_decide x attempt (db.threads.view a)
      have hview : ∀ t ∈ (x.decide attempt (db.threads.view a)).targetThreadId,
          ∃ thread, db.threads.row t = some thread ∧ thread.status = .active := by
        intro t ht
        obtain ⟨thread, hm, rfl, hact⟩ := hactive t ht
        rw [hu.view] at hm
        exact ⟨thread, get_of_mem hc.unique hm, hact⟩
      generalize x.decide attempt (db.threads.view a) = decision at hplan hview ⊢
      generalize (normalizedTransition decision).commands = commands at hplan ⊢
      intro p hp'
      cases hplan with
      | «continue» ha ht | markIdle ha ht =>
        obtain ⟨thread, hthread, hact⟩ := hview _ ht
        simp only [stake, Transaction.goto, ha, ht, if_true, if_false, Option.map_some,
          Option.mem_def, Option.some.injEq] at hp'
        subst hp'
        exact ⟨thread, hthread, by simp [hact]⟩
      | closeThread ha | createNew ha => simp [stake, Transaction.goto, ha] at hp'
    | session _ hp | missing hp => simp [Suited, stake, Transaction.goto]
    | undo attempt e =>
      simp [Suited, Transaction.goto, stake_of_undecided (undecided_handle attempt e)]
    | persist _ _ _ _ hp | enter _ _ _ hp | found _ _ _ _ _ _ hp | status _ _ _ _ _ _ _ _ hp
    | create _ _ _ _ _ _ hp | idle _ _ _ _ hp | insert _ _ _ hp =>
      simp [hp, Decided, Transaction.goto, Transaction.enter] at hd

end Statement

/-! ### The invariant -/

def Tx.stored : Tx → Option SessionAnalysis
  | .analysis x => x.stored
  | .closing .. => none

/-- The analysis that transaction `a` has inserted. -/
def stored (s : State) (a : ℕ) : Option SessionAnalysis := (s.txs a).bind Tx.stored

/-- What transaction `a`, if it is open, has done and relies on. -/
def SoundTx (T : Table ℕ Uuid Uuid AnalysisThread) (a : ℕ) (o : Bool) : Option Tx → Prop
  | some (.analysis x) => Sound T a o x.stage ∧ (o = false → Suited T x.stage)
  | _ => T.Untouched a

structure Wf (s : State) : Prop where
  consistent : s.db.threads.Consistent
  holds : Holds s.db.analyses (stored s)
  rises : s.db.threads.Evolves (Rises s.overtaken)
  sound : ∀ a, SoundTx s.db.threads a (s.overtaken a) (s.txs a)

theorem wf_quiet (sessions : List DreamSession) {threads : List AnalysisThread}
    {analyses : List SessionAnalysis} (ht : DistinctKeys threads) (ha : DistinctKeys analyses) :
    Wf (quiet sessions threads analyses) :=
  ⟨Table.consistent_ofRows ht, holds_ofRows ha, Table.evolves_ofRows threads,
    Table.untouched_ofRows threads⟩

theorem stored_update (s : State) (a : ℕ) (tx : Option Tx) :
    (fun b => (Function.update s.txs a tx b).bind Tx.stored) =
      Function.update (stored s) a (tx.bind Tx.stored) :=
  Function.comp_update (fun o : Option Tx => o.bind Tx.stored) s.txs a tx

/-- The part of the invariant about a transaction depends on its own work and on the
committed rows. -/
theorem SoundTx.congr {T T' : Table ℕ Uuid Uuid AnalysisThread} {b : ℕ} {o o' : Bool}
    {tx : Option Tx} (h : SoundTx T b o tx)
    (hw : T'.updates b = T.updates b ∧ T'.inserts b = T.inserts b) (ho : o' = false → o = false)
    (hsuit : ∀ x, tx = some (.analysis x) → o' = false → Suited T x.stage → Suited T' x.stage) :
    SoundTx T' b o' tx := by
  match tx, h with
  | some (.analysis x), h =>
    exact ⟨h.1.congr hw.1 hw.2 ho, fun ho' => hsuit x rfl ho' (h.2 (ho ho'))⟩
  | some (.closing ..), h | none, h =>
    show T'.Untouched b
    have hu : T.Untouched b := h
    exact ⟨fun k => by rw [hw.1]; exact hu.1 k, hw.2.trans hu.2⟩

theorem suited_of_committed {T T' : Table ℕ Uuid Uuid AnalysisThread} {stage : Stage}
    (h : T'.committed = T.committed) (hs : Suited T stage) : Suited T' stage := by
  intro p hp
  rw [Table.row, h]
  exact hs p hp

/-- A commit that does not break a stake leaves it suited: rows never disappear. -/
theorem suited_commit {T : Table ℕ Uuid Uuid AnalysisThread} (hc : T.Consistent) {a : ℕ}
    {x : Transaction} (hs : Suited T x.stage) (hb : ¬ Broken (T.commit a) (some (.analysis x))) :
    Suited (T.commit a) x.stage := by
  intro p hp
  obtain ⟨thread, hthread, -⟩ := hs p hp
  have hrow : (T.commit a).row p.1 = _ := hc.seen_of_row (a := a) hthread
  refine ⟨_, hrow, ?_⟩
  by_contra hne
  exact hb ⟨p, hp, _, hrow, by simpa using hne⟩

theorem soundTx_update {T : Table ℕ Uuid Uuid AnalysisThread} {o : ℕ → Bool}
    {txs : ℕ → Option Tx} {a : ℕ} {tx : Option Tx} (ha : SoundTx T a (o a) tx)
    (hb : ∀ b, b ≠ a → SoundTx T b (o b) (txs b)) (b : ℕ) :
    SoundTx T b (o b) (Function.update txs a tx b) := by
  by_cases h : b = a
  · subst h
    rwa [Function.update_self]
  · rw [Function.update_of_ne h]
    exact hb b h

variable {s t : State} {a : ℕ}

theorem wf_begin {request : Request} (hw : Wf s) (ht : step s (.begin a request) = some t) : Wf t := by
  simp only [step, Option.ite_none_right_eq_some, Option.some.injEq] at ht
  obtain ⟨hn, rfl⟩ := ht
  have hunt : s.db.threads.Untouched a := by simpa [SoundTx, hn] using hw.sound a
  refine ⟨hw.consistent, ?_, ?_, soundTx_update ?_ fun b hb => ?_⟩
  · unfold stored
    rw [stored_update]
    have hs : stored s a = none := by simp [stored, hn]
    simpa [Tx.stored, Transaction.stored, ← hs] using hw.holds
  · refine hw.rises.mono fun b k r c hr hR => ?_
    have hb : b ≠ a := by
      rintro rfl
      simp [hunt.1] at hr
    simpa [Rises, hb] using hR
  · exact ⟨.undecided rfl hunt, fun _ => by simp [Suited, stake]⟩
  · simpa [hb] using hw.sound b

theorem wf_close {sessionId : Uuid} (hw : Wf s) (ht : step s (.close a sessionId) = some t) :
    Wf t := by
  simp only [step, Option.ite_none_right_eq_some, Option.some.injEq] at ht
  obtain ⟨hn, rfl⟩ := ht
  have hunt : s.db.threads.Untouched a := by simpa [SoundTx, hn] using hw.sound a
  refine ⟨hw.consistent, ?_, hw.rises, soundTx_update hunt fun b _ => hw.sound b⟩
  unfold stored
  rw [stored_update]
  have hs : stored s a = none := by simp [stored, hn]
  simpa [Tx.stored, ← hs] using hw.holds

theorem wf_statement {id : Uuid} {now : Time} (hw : Wf s)
    (ht : step s (.step a id now) = some t) : Wf t := by
  simp only [step, Option.bind_eq_bind, Option.bind_eq_some_iff] at ht
  obtain ⟨tx, htx, ht⟩ := ht
  have hsa := hw.sound a
  rw [htx] at hsa
  cases tx with
  | analysis x =>
    simp only [Option.bind_eq_some_iff, Option.some.injEq, Prod.exists] at ht
    obtain ⟨db', x', hstep, rfl⟩ := ht
    have he := Transaction.effect_of_step hstep
    obtain ⟨hsound, hsuit⟩ := hsa
    -- the ghost of `a` can only be reset, and only where `a` has no work
    have hkeep : (s.overtaken a && Decided x.stage && Decided x'.stage) = false →
        s.overtaken a = false ∨ db'.threads.Untouched a := by
      intro ho
      cases ha : s.overtaken a with
      | false => exact .inl rfl
      | true => exact .inr (untouched_of_reset he hsound (by simpa [ha] using ho))
    refine ⟨he.consistent hw.consistent, ?_, ?_, soundTx_update ?_ fun b hb => ?_⟩
    · unfold stored
      rw [stored_update]
      exact he.holds hw.holds (by simp [stored, htx, Tx.stored])
    · refine (rises_effect he hw.consistent hw.rises hsound hsuit).mono fun b k r c hr hR ho => ?_
      by_cases hb : b = a
      · subst hb
        simp only [Function.update_self] at ho
        rcases hkeep ho with ho | hu
        · exact hR ho
        · simp [hu.1] at hr
      · simp only [Function.update_of_ne hb] at ho
        exact hR ho
    · simp only [Function.update_self]
      refine ⟨?_, fun ho => suited_effect he hw.consistent hsound hsuit ho⟩
      have hs := sound_effect he hw.consistent hsound hsuit
      by_cases ho : (s.overtaken a && Decided x.stage && Decided x'.stage) = false
      · rcases hkeep ho with ha | hu
        · exact hs.congr rfl rfl fun _ => ha
        · exact hs.of_untouched hu
      · exact hs.congr rfl rfl fun h => absurd h ho
    · simp only [Function.update_of_ne hb]
      exact (hw.sound b).congr (he.frame hb) (fun h => h) fun _ _ _ h =>
        suited_of_committed he.committed.1 h
  | closing sessionId written =>
    simp only [Option.ite_none_right_eq_some, Option.some.injEq] at ht
    obtain ⟨-, rfl⟩ := ht
    refine ⟨hw.consistent, ?_, hw.rises, soundTx_update hsa fun b _ => hw.sound b⟩
    unfold stored
    rw [stored_update]
    have hs : stored s a = none := by simp [stored, htx, Tx.stored]
    simpa [Tx.stored, ← hs] using hw.holds

theorem wf_rollback (hw : Wf s) (ht : step s (.rollback a) = some t) : Wf t := by
  simp only [step, Option.ite_none_left_eq_some, Option.some.injEq] at ht
  obtain ⟨-, rfl⟩ := ht
  refine ⟨hw.consistent.rollback a, ?_, hw.rises.rollback a,
    soundTx_update Table.untouched_rollback fun b hb => ?_⟩
  · unfold stored
    rw [stored_update]
    exact hw.holds.rollback a
  · exact (hw.sound b).congr (Table.rollback_work_of_ne hb) (fun h => h) fun _ _ _ h => h

theorem wf_commit (hw : Wf s) (ht : step s (.commit a) = some t) : Wf t := by
  simp only [step, Option.bind_eq_bind, Option.bind_eq_some_iff, Option.ite_none_right_eq_some,
    Option.some.injEq] at ht
  obtain ⟨tx, -, -, rfl⟩ := ht
  refine ⟨hw.consistent.commit a, ?_, ?_, soundTx_update Table.untouched_rollback fun b hb => ?_⟩
  · unfold stored
    rw [stored_update]
    exact hw.holds.commit a
  · exact (hw.rises.commit hw.consistent a).mono fun b k r c _ hR ho => hR (by simp_all)
  · refine (hw.sound b).congr (Table.rollback_work_of_ne hb) (fun h => by simp_all)
      fun x hx ho h => suited_commit hw.consistent h ?_
    simp only [hx, Bool.or_eq_false_iff, decide_eq_false_iff_not] at ho
    exact ho.2

theorem wf_step {e : Event} (hw : Wf s) (ht : step s e = some t) : Wf t := by
  cases e with
  | begin => exact wf_begin hw ht
  | close => exact wf_close hw ht
  | step => exact wf_statement hw ht
  | commit => exact wf_commit hw ht
  | rollback => exact wf_rollback hw ht

/-! ### What a step commits -/

theorem committed_step {e : Event} (he : ∀ a, e ≠ .commit a) (ht : step s e = some t) :
    t.db.threads.committed = s.db.threads.committed ∧
      t.db.analyses.committed = s.db.analyses.committed := by
  cases e with
  | begin | close =>
    simp only [step, Option.ite_none_right_eq_some, Option.some.injEq] at ht
    obtain ⟨-, rfl⟩ := ht
    exact ⟨rfl, rfl⟩
  | step a id now =>
    simp only [step, Option.bind_eq_bind, Option.bind_eq_some_iff] at ht
    obtain ⟨tx, -, ht⟩ := ht
    cases tx with
    | analysis x =>
      simp only [Option.bind_eq_some_iff, Option.some.injEq, Prod.exists] at ht
      obtain ⟨db', x', hstep, rfl⟩ := ht
      exact (Transaction.effect_of_step hstep).committed
    | closing =>
      simp only [Option.ite_none_right_eq_some, Option.some.injEq] at ht
      obtain ⟨-, rfl⟩ := ht
      exact ⟨rfl, rfl⟩
  | commit a => exact absurd rfl (he a)
  | rollback a =>
    simp only [step, Option.ite_none_left_eq_some, Option.some.injEq] at ht
    obtain ⟨-, rfl⟩ := ht
    exact ⟨rfl, rfl⟩

/-- The thread that a transaction which was not overtaken commits into is active. -/
theorem status_commit (hw : Wf s) {x : Transaction} (htx : s.txs a = some (.analysis x))
    (ho : s.overtaken a = false) {r : SessionAnalysis} (hr : x.stored = some r) :
    ((s.db.threads.commit a).row r.threadId).map AnalysisThread.status = some .active := by
  have hsa := hw.sound a
  rw [htx] at hsa
  obtain ⟨hsound, hsuit⟩ := hsa
  unfold Transaction.stored at hr
  split at hr
  · next decision persist hp =>
    rw [hp] at hsound hsuit
    have hrow := Phase.row_of_stored hr
    cases hsound with
    | undecided hd => cases hd
    | continuing ha ht _ hk hthread =>
      obtain ⟨th, hth, hact⟩ := hsuit ho (persist.prepared.thread.id, fun st => st = .active)
        (by simp [stake, ha, ht])
      rw [hthread r hrow, Table.commit_row, hw.consistent.seen_of_row hth, Option.map_some]
      cases hup : s.db.threads.updates a persist.prepared.thread.id with
      | none => simpa using hact
      | some v => simpa using hk v hup ho
    | creating ha hc hthread =>
      obtain ⟨v, hv, hid, hact⟩ := hc
      have hnew := (hw.consistent.inserted a v hv).2
      rw [key_thread, hid] at hnew
      rw [hthread r hrow, Table.commit_row, hw.consistent.seen_of_new hnew, ← hid, ← key_thread,
        get_of_mem (hw.consistent.uniqueInserts a) hv, Option.map_some, hact]
  · cases hr

/-- The step lemma: a transaction that was not overtaken commits into an active thread
and takes no thread down in rank. -/
theorem live_step {e : Event} (hw : Wf s) (hok : NotOvertaken s e) (ht : step s e = some t) :
    IntoActive s e t ∧ Rising s e t := by
  by_cases he : ∀ a, e ≠ .commit a
  · obtain ⟨hthreads, hanalyses⟩ := committed_step he ht
    constructor
    · intro r hr hn
      rw [hanalyses] at hr
      rw [Table.row, ← key_analysis, get_of_mem hw.holds.consistent.unique hr] at hn
      cases hn
    · intro k st hst
      refine ⟨st, ?_, le_rfl⟩
      rwa [status, Table.row, hthreads]
  · obtain ⟨a, rfl⟩ : ∃ a, e = .commit a := by simpa using he
    have ho : s.overtaken a = false := hok
    simp only [step, Option.bind_eq_bind, Option.bind_eq_some_iff, Option.ite_none_right_eq_some,
      Option.some.injEq] at ht
    obtain ⟨tx, htx, -, rfl⟩ := ht
    constructor
    · intro r hr hn
      rw [Table.commit_committed] at hr
      -- a committed row that was not there before is the one the transaction inserted
      have hseen := get_of_mem (hw.holds.consistent.view_distinctKeys a) hr
      rw [show get (s.db.analyses.view a) (key r) = s.db.analyses.seen a r.id from rfl,
        hw.holds.consistent.seen_of_new hn, hw.holds.inserts] at hseen
      have hm := Option.mem_toList.mp (mem_of_get hseen)
      cases tx with
      | analysis x => exact status_commit hw htx ho (by simpa [stored, htx, Tx.stored] using hm)
      | closing => simp [stored, htx, Tx.stored] at hm
    · intro k st hst
      obtain ⟨c, hc, rfl⟩ := Option.map_eq_some_iff.mp hst
      obtain ⟨c', hc', hle⟩ := hw.rises.commit_row hw.consistent (rises_self s.overtaken) hc
      exact ⟨c'.status, by rw [status, hc', Option.map_some], hle ho⟩

/-- Whenever the status of a thread is one of `P` in a run, it stays so to the end. -/
def StaysIn (P : ThreadStatus → Prop) (s₀ : State) (es : List Event) : Prop :=
  ∀ before after s k, es = before ++ after → run step s₀ before = some s →
    (∃ st, status s k = some st ∧ P st) →
    Always step (fun t => ∃ st, status t k = some st ∧ P st) s after

/-- In every run in which no overtaken transaction commits, analyses are committed
into active threads only, a closed thread stays closed, and a thread that is idle
never is active again. -/
theorem writes_to_live_threads {sessions : List DreamSession} {threads : List AnalysisThread}
    {analyses : List SessionAnalysis} (ht : DistinctKeys threads) (ha : DistinctKeys analyses)
    {es : List Event} (hg : Guarded step NotOvertaken (quiet sessions threads analyses) es) :
    AlwaysStep step IntoActive (quiet sessions threads analyses) es ∧
      StaysIn (· = .closed) (quiet sessions threads analyses) es ∧
      StaysIn (· ≠ .active) (quiet sessions threads analyses) es := by
  have hlive : AlwaysStep step (fun s e t => IntoActive s e t ∧ Rising s e t)
      (quiet sessions threads analyses) es :=
    alwaysStep_of_guarded (G := NotOvertaken) (I := Wf)
      (fun _ _ _ hw hok ht => ⟨wf_step hw ht, live_step hw hok ht⟩) (wf_quiet sessions ht ha) hg
  have hstays : ∀ P : ThreadStatus → Prop, (∀ st st', rank st ≤ rank st' → P st → P st') →
      StaysIn P (quiet sessions threads analyses) es := by
    rintro P hP before after s k rfl hr hs
    refine (hlive.suffix hr).always ?_ hs
    rintro u e v ⟨-, hrise⟩ ⟨st, hst, hp⟩
    obtain ⟨st', hst', hle⟩ := hrise k st hst
    exact ⟨st', hst', hP st st' hle hp⟩
  refine ⟨hlive.mono fun _ _ _ h => h.1, hstays _ ?_, hstays _ ?_⟩ <;>
    · intro st st'
      cases st <;> cases st' <;> simp [rank]

/-! ### Examples -/

def session : DreamSession := ⟨7, 3, .active, 0, 0⟩

def thread : AnalysisThread := ⟨1, 7, .active, 0, none, none⟩

def request (mode : AnalysisMode) (now : Time) : Request :=
  ⟨⟨7, 3, "mock", "mock-v1", "p1", "dream_v1", "", none⟩, mode, now, now, none⟩

def start : State := quiet [session] [thread] []

/-- `n` statements of transaction `a`, then five with the identifier of an analysis. -/
def statements (a n : ℕ) (threadId analysisId : Uuid) : List Event :=
  List.replicate n (.step a threadId 0) ++ List.replicate 5 (.step a analysisId 0)

instance (s : State) : ∀ e, Decidable (NotOvertaken s e)
  | .commit a => inferInstanceAs (Decidable (s.overtaken a = false))
  | .begin .. | .close .. | .step .. | .rollback .. => isTrue trivial

/-- One transaction creates a thread, the next one continues it. -/
def serial : List Event :=
  .begin 0 (request .new 0) :: statements 0 6 2 20 ++ .commit 0 ::
    .begin 1 (request .auto 0) :: statements 1 4 3 21 ++ [.commit 1]

theorem writes_to_live_threads_serial :
    AlwaysStep step IntoActive start serial ∧ StaysIn (· = .closed) start serial ∧
      StaysIn (· ≠ .active) start serial :=
  writes_to_live_threads (by simp [DistinctKeys]) distinctKeys_nil (by decide)

/-- Transaction 0 decides to continue the thread; transaction 1 replaces the thread by
a new one and commits. -/
def replaced : List Event :=
  [.begin 0 (request .auto 0), .step 0 0 0, .step 0 0 0] ++
    .begin 1 (request .new 0) :: statements 1 6 2 21 ++ .commit 1 :: statements 0 2 0 20

/-- Transaction 0 decides to mark the stale thread idle; the session is closed, and
transaction 1 closes the thread. -/
def closed : List Event :=
  [.begin 0 (request .auto (seconds 300000)), .step 0 0 0, .step 0 0 0,
    .close 2 7, .step 2 0 0, .commit 2] ++
    .begin 1 (request .auto (seconds 300000)) :: statements 1 7 2 21 ++ [.commit 1]

def reopened : List Event := statements 0 5 4 20 ++ [.commit 0]

theorem run_replaced : (run step start replaced).map (fun s => s.db.analyses.row 20) = some none ∧
    (run step start (replaced ++ [.commit 0])).map (fun s => (status s 1,
      s.db.analyses.committed.map fun r => (r.id, r.threadId))) =
      some (some .idle, [(21, 2), (20, 1)]) := by
  decide

theorem run_closed : (run step start closed).map (status · 1) = some (some .closed) ∧
    (run step start (closed ++ reopened)).map (status · 1) = some (some .idle) := by
  decide

/-- The analysis of transaction 0 is committed into an idle thread, and in the other
run it takes the closed thread back to idle. -/
theorem writes_to_dead_threads :
    (¬ ∀ sessions threads, DistinctKeys threads → OneActive threads →
      ∀ es, AlwaysStep step IntoActive (quiet sessions threads []) es) ∧
    ¬ ∀ sessions threads, DistinctKeys threads → OneActive threads →
      ∀ es, StaysIn (· = .closed) (quiet sessions threads []) es := by
  constructor
  · intro h
    have hl := h [session] [thread] (by simp [DistinctKeys]) (by simp [OneActive])
      (replaced ++ [.commit 0])
    obtain ⟨s, hs, hn⟩ := Option.map_eq_some_iff.mp run_replaced.1
    obtain ⟨t, ht, hp⟩ := Option.map_eq_some_iff.mp run_replaced.2
    rw [run_append, show run step start replaced = some s from hs, Option.bind_some, run_cons,
      Option.bind_eq_some_iff] at ht
    obtain ⟨u, hu, he⟩ := ht
    obtain rfl : u = t := Option.some.inj he
    obtain ⟨hst, hrows⟩ := Prod.mk.inj hp
    have hm : (20, 1) ∈ u.db.analyses.committed.map fun r => (r.id, r.threadId) := by
      rw [hrows]
      simp
    obtain ⟨r, hr, hid⟩ := List.mem_map.mp hm
    obtain ⟨hid, hthread⟩ := Prod.mk.inj hid
    have hact := (hl.suffix hs u hu).1 r hr (by rw [hid]; exact hn)
    rw [hthread, hst] at hact
    cases hact
  · intro h
    obtain ⟨s, hs, hc⟩ := Option.map_eq_some_iff.mp run_closed.1
    obtain ⟨t, ht, hi⟩ := Option.map_eq_some_iff.mp run_closed.2
    rw [run_append, show run step start closed = some s from hs, Option.bind_some] at ht
    obtain ⟨st, hst, hp⟩ := (h [session] [thread] (by simp [DistinctKeys]) (by simp [OneActive])
      (closed ++ reopened) closed reopened s 1 rfl hs ⟨.closed, hc, rfl⟩).of_run ht
    rw [hi, hp] at hst
    cases hst

end LiberNovus.Analysis.LiveThreads

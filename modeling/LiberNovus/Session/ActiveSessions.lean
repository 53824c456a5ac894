import LiberNovus.Foundation.Runs
import LiberNovus.Session.Agreement

/-! Any number of concurrent transactions that resolve sessions, statement by statement.
Nothing but the code keeps a user to one active session: `dream_sessions` has no unique
index, and no statement locks what it has read.

Proved: from a state with at most one active session of a user, every state of a run has at
most one, as long as no transaction of the user commits a session that it created after
another one has committed a created session since the deciding `SELECT`. -/

namespace LiberNovus.Session.ActiveSessions

open Rows ReadCommitted Runs Dialogue

/-- The calls of the session service in a transaction. -/
inductive ServiceCall where
  | getOrCreate
  | updateActivity
  deriving DecidableEq

/-- What a transaction runs. The `SELECT` of the policy comes before the calls of a message
and only has a part in the choice of the route. -/
inductive Program where
  | getOrCreate
  | message (route : PolicyRoute)
  deriving DecidableEq

def Program.calls : Program → List ServiceCall
  | .getOrCreate => [.getOrCreate]
  | .message .noop => []
  | .message .newDream => [.getOrCreate, .getOrCreate, .updateActivity]
  | .message _ => [.getOrCreate, .updateActivity]

/-- Where a transaction stands in `get_or_create_active_session`: before its `SELECT`, before
the `UPDATE` that closes a stale session, or before the `INSERT`. -/
inductive Stage where
  | ready
  | closing (sessionId : Uuid)
  | creating
  deriving DecidableEq

/-- An open transaction: the calls it still has to make, the current one first, and the
session object it holds from its last resolution. -/
structure Transaction where
  userId : ℤ
  startedAt : Time
  calls : List ServiceCall
  stage : Stage
  held : Option DreamSession
  deriving DecidableEq

abbrev Sessions := Table ℕ Uuid Empty DreamSession

namespace Transaction

/-- A row that is selected again keeps the columns that its object was loaded with. -/
def loaded (x : Transaction) (row : DreamSession) : DreamSession :=
  match x.held with
  | some session => if session.id = row.id then session else row
  | none => row

/-- `update_session_activity`, on the row it names. -/
def touched (x : Transaction) (row : DreamSession) : DreamSession :=
  { row with lastActivityAt := x.startedAt }

/-- The next statement of transaction `a`; `id` is the `uuid4` of a new row and `now` the
clock. -/
def step (T : Sessions) (a : ℕ) (id : Uuid) (now : Time) (x : Transaction) :
    Option (Sessions × Transaction) :=
  match x.stage, x.calls with
  | .ready, .getOrCreate :: calls =>
    match getActiveSessionRaw (T.view a) x.userId with
    | none => some (T, { x with stage := .creating })
    | some row =>
      let session := x.loaded row
      if session.Stale now then some (T, { x with stage := .closing session.id })
      else some (T, { x with calls := calls, held := some session })
  | .ready, .updateActivity :: calls =>
    match x.held with
    | none => none
    | some session =>
      if T.Free a session.id then
        some (T.write a session.id x.touched, { x with calls := calls })
      else none
  | .ready, [] => none
  | .closing sessionId, _ =>
    if T.Free a sessionId then
      some (T.write a sessionId DreamSession.closed, { x with stage := .creating })
    else none
  | .creating, calls =>
    let session : DreamSession := ⟨id, x.userId, .active, x.startedAt, now⟩
    if T.Blocked a session ∨ T.Conflicts a session then none
    else some (T.insert a session,
      { x with stage := .ready, calls := calls.tail, held := some session })

inductive Effect (T : Sessions) (a : ℕ) (x : Transaction) : Sessions → Transaction → Prop
  | absent (hs : x.stage = .ready) (hraw : getActiveSessionRaw (T.view a) x.userId = none) :
      Effect T a x T { x with stage := .creating }
  | stale (hs : x.stage = .ready) (row : DreamSession)
      (hraw : getActiveSessionRaw (T.view a) x.userId = some row) :
      Effect T a x T { x with stage := .closing row.id }
  | found (calls : List ServiceCall) (held : Option DreamSession) (hs : x.stage = .ready) :
      Effect T a x T { x with calls := calls, held := held }
  | touch (calls : List ServiceCall) (sessionId : Uuid) (hs : x.stage = .ready)
      (hfree : T.Free a sessionId) :
      Effect T a x (T.write a sessionId x.touched) { x with calls := calls }
  | close (sessionId : Uuid) (hs : x.stage = .closing sessionId) (hfree : T.Free a sessionId) :
      Effect T a x (T.write a sessionId DreamSession.closed) { x with stage := .creating }
  | create (calls : List ServiceCall) (session : DreamSession) (hs : x.stage = .creating)
      (hu : session.userId = x.userId) (hb : ¬ T.Blocked a session)
      (hc : ¬ T.Conflicts a session) :
      Effect T a x (T.insert a session)
        { x with stage := .ready, calls := calls, held := some session }

variable {T T' : Sessions} {a : ℕ} {id : Uuid} {now : Time} {x x' : Transaction}

theorem loaded_id (x : Transaction) (row : DreamSession) : (x.loaded row).id = row.id := by
  unfold loaded
  split
  · split
    · next h => exact h
    · rfl
  · rfl

theorem effect_of_step (h : x.step T a id now = some (T', x')) : Effect T a x T' x' := by
  unfold step at h
  split at h
  · next calls hs hcalls =>
    split at h
    · next hraw => cases h; exact .absent hs hraw
    · next row hraw =>
      dsimp only at h
      split at h <;> cases h
      · rw [loaded_id]
        exact .stale hs row hraw
      · exact .found _ _ hs
  · next calls hs hcalls =>
    split at h
    · cases h
    · split at h <;> cases h
      next hfree => exact .touch _ _ hs hfree
  · cases h
  · next hs =>
    split at h <;> cases h
    next hfree => exact .close _ hs hfree
  · next hs =>
    dsimp only at h
    split at h <;> cases h
    next hn => exact .create _ _ hs rfl (fun hb => hn (.inl hb)) fun hc => hn (.inr hc)

theorem Effect.userId (h : Effect T a x T' x') : x'.userId = x.userId := by
  cases h <;> rfl

end Transaction

/-! ### Runs -/

/-- The table and the open transactions. `overtaken` records that another transaction of the
user committed a created session after the transaction had decided to create one. -/
structure State where
  sessions : Sessions
  txs : ℕ → Option Transaction
  overtaken : ℕ → Bool

inductive Event where
  | begin (a : ℕ) (userId : ℤ) (program : Program) (startedAt : Time)
  | step (a : ℕ) (id : Uuid) (now : Time)
  | commit (a : ℕ)
  | rollback (a : ℕ)
  deriving DecidableEq

/-- The transaction has decided to create a session, or has created one. -/
def Creates (T : Sessions) (a : ℕ) (x : Transaction) : Prop := x.stage ≠ .ready ∨ T.inserts a ≠ []

instance (T : Sessions) (a : ℕ) (x : Transaction) : Decidable (Creates T a x) :=
  inferInstanceAs (Decidable (_ ∨ _))

/-- The commit of transaction `a` overtakes the open transaction `b`. -/
def Overtakes (s : State) (a : ℕ) (x : Transaction) (b : ℕ) : Prop :=
  s.sessions.inserts a ≠ [] ∧ ∃ y ∈ s.txs b, y.userId = x.userId ∧ Creates s.sessions b y

instance (s : State) (a : ℕ) (x : Transaction) (b : ℕ) : Decidable (Overtakes s a x b) :=
  inferInstanceAs (Decidable (_ ∧ ∃ _ ∈ _, _))

/-- One event. A statement that has to wait is not enabled; a transaction that anything
interrupts is rolled back. -/
def step (s : State) : Event → Option State
  | .begin a userId program startedAt =>
    if s.txs a = none then
      some { s with
        txs := Function.update s.txs a (some ⟨userId, startedAt, program.calls, .ready, none⟩)
        overtaken := Function.update s.overtaken a false }
    else none
  | .step a id now => do
    let x ← s.txs a
    let (T, x') ← x.step s.sessions a id now
    some { s with sessions := T, txs := Function.update s.txs a (some x') }
  | .commit a => do
    let x ← s.txs a
    if x.stage = .ready ∧ x.calls = [] then
      some {
        sessions := s.sessions.commit a
        txs := Function.update s.txs a none
        overtaken := fun b => s.overtaken b || decide (Overtakes s a x b) }
    else none
  | .rollback a =>
    if s.txs a = none then none
    else some { s with
      sessions := s.sessions.rollback a
      txs := Function.update s.txs a none }

def quiet (sessions : List DreamSession) : State :=
  ⟨Table.ofRows sessions, fun _ => none, fun _ => false⟩

/-- The user has at most one active session in the committed rows. -/
def OneActive (userId : ℤ) (s : State) : Prop := (actives s.sessions.committed userId).length ≤ 1

/-- A transaction of the user that commits was not overtaken. -/
def NotOvertaken (userId : ℤ) (s : State) : Event → Prop
  | .commit a => ∀ x ∈ s.txs a, x.userId = userId → s.overtaken a = false
  | _ => True

/-! ### Active sessions, key by key -/

/-- A row is the active session of the user. -/
def IsActive (userId : ℤ) (session : DreamSession) : Prop :=
  session.userId = userId ∧ session.status = .active

/-- Transaction `a` sees an active session of the user under the key. -/
def Sees (T : Sessions) (a : ℕ) (userId : ℤ) (k : Uuid) : Prop :=
  ∃ session, T.seen a k = some session ∧ IsActive userId session

/-- Pending versions keep the user of a row, and make no closed session active. -/
def Closes (_ : ℕ) (c r : DreamSession) : Prop := ∀ userId, IsActive userId r → IsActive userId c

theorem closes_refl (a : ℕ) (c : DreamSession) : Closes a c c := fun _ h => h

section Keys

variable {T : Sessions} {a b : ℕ} {userId : ℤ} {k : Uuid} {sessions : List DreamSession}

/-- At most one active row is at most one key of an active row. -/
theorem length_actives_le_one (hk : DistinctKeys sessions) :
    (actives sessions userId).length ≤ 1 ↔
      ∀ k k', (∃ r, get sessions k = some r ∧ IsActive userId r) →
        (∃ r, get sessions k' = some r ∧ IsActive userId r) → k = k' := by
  have hmem : ∀ r, r ∈ actives sessions userId ↔ r ∈ sessions ∧ IsActive userId r :=
    fun _ => mem_actives
  constructor
  · rintro h k k' ⟨r, hr, ha⟩ ⟨r', hr', ha'⟩
    have hm := (hmem r).mpr ⟨mem_of_get hr, ha⟩
    have hm' := (hmem r').mpr ⟨mem_of_get hr', ha'⟩
    obtain ⟨x, hx⟩ : ∃ x, actives sessions userId = [x] :=
      List.length_eq_one_iff.mp (le_antisymm h (List.length_pos_of_mem hm))
    rw [hx, List.mem_singleton] at hm hm'
    rw [← key_of_get hr, ← key_of_get hr', hm, hm']
  · intro h
    have hk' : DistinctKeys (actives sessions userId) := hk.sublist (List.filter_sublist.map _)
    match hs : actives sessions userId with
    | [] => simp
    | [_] => simp
    | r :: r' :: rest =>
      have hm := (hmem r).mp (by simp [hs])
      have hm' := (hmem r').mp (by simp [hs])
      have he := h (key r) (key r') ⟨r, get_of_mem hk hm.1, hm.2⟩ ⟨r', get_of_mem hk hm'.1, hm'.2⟩
      rw [hs] at hk'
      simp [DistinctKeys, ← he] at hk'

/-- What a transaction sees active is its own or active in the committed rows. -/
theorem active_of_sees (hc : T.Consistent) (he : T.Evolves Closes) (h : Sees T a userId k) :
    (∃ r ∈ T.inserts a, r.id = k ∧ IsActive userId r) ∨
      ∃ c, T.row k = some c ∧ IsActive userId c := by
  obtain ⟨r, hr, hactive⟩ := h
  cases hrow : T.row k with
  | none =>
    rw [hc.seen_of_new hrow] at hr
    exact .inl ⟨r, mem_of_get hr, key_of_get hr, hactive⟩
  | some c =>
    obtain ⟨r', hr', hR⟩ := he.seen (a := a) hc (closes_refl a) hrow
    obtain rfl := Option.some.inj (hr.symm.trans hr')
    exact .inr ⟨c, rfl, hR userId hactive⟩

/-- After the commit of `a` another transaction sees no more active sessions than before,
but for those that `a` has created. -/
theorem sees_commit (hc : T.Consistent) (he : T.Evolves Closes) (hb : b ≠ a)
    (h : Sees (T.commit a) b userId k) :
    Sees T b userId k ∨ ∃ r ∈ T.inserts a, r.id = k ∧ IsActive userId r := by
  obtain ⟨r, hr, hactive⟩ := h
  obtain ⟨hup, hin⟩ := T.rollback_work_of_ne hb
  have hrow : (T.commit a).row k = T.seen a k := Table.commit_row
  have hup' : (T.commit a).updates b = T.updates b := hup
  have hin' : (T.commit a).inserts b = T.inserts b := hin
  cases hs : T.seen a k with
  | none =>
    rw [(hc.commit a).seen_of_new (hrow.trans hs), hin'] at hr
    cases hc' : T.row k with
    | none => exact .inl ⟨r, (hc.seen_of_new hc').trans hr, hactive⟩
    | some c => rw [hc.seen_of_row hc'] at hs; cases hs
  | some c' =>
    rw [(hc.commit a).seen_of_row (hrow.trans hs), hup', Option.some.injEq] at hr
    cases hu : T.updates b k with
    | some v =>
      rw [hu] at hr
      obtain ⟨c, hc'⟩ := Option.ne_none_iff_exists'.mp (hc.locked b k v hu).2.2
      refine .inl ⟨r, ?_, hactive⟩
      rw [hc.seen_of_row hc', hu]
      exact congrArg some hr
    | none =>
      rw [hu] at hr
      obtain rfl : c' = r := hr
      rcases active_of_sees hc he ⟨c', hs, hactive⟩ with hnew | ⟨c, hc', hactive'⟩
      · exact .inr hnew
      · refine .inl ⟨c, ?_, hactive'⟩
        rw [hc.seen_of_row hc', hu]
        rfl

theorem sees_of_view_eq {T' : Sessions} (h : T'.view b = T.view b) (hs : Sees T' b userId k) :
    Sees T b userId k := by
  obtain ⟨r, hr, hactive⟩ := hs
  exact ⟨r, (congrArg (get · k) h).symm.trans hr, hactive⟩

end Keys

/-! ### The invariant -/

/-- What a transaction that was not overtaken sees of the active sessions of its user. -/
def Sound (T : Sessions) (a : ℕ) (x : Transaction) : Prop :=
  match x.stage with
  | .ready => ∀ k k', Sees T a x.userId k → Sees T a x.userId k' → k = k'
  | .closing sessionId => ∀ k, Sees T a x.userId k → k = sessionId
  | .creating => ∀ k, ¬ Sees T a x.userId k

/-- The new rows of a transaction are of its user; a number without a transaction has none. -/
def Own (T : Sessions) (a : ℕ) : Option Transaction → Prop
  | none => T.Untouched a
  | some x => ∀ r ∈ T.inserts a, r.userId = x.userId

structure Wf (userId : ℤ) (s : State) : Prop where
  consistent : s.sessions.Consistent
  evolves : s.sessions.Evolves Closes
  own : ∀ a, Own s.sessions a (s.txs a)
  one : OneActive userId s
  sound : ∀ a x, s.txs a = some x → x.userId = userId → s.overtaken a = false →
    Sound s.sessions a x

theorem Sound.mono {T T' : Sessions} {a : ℕ} {x : Transaction} (h : Sound T a x)
    (hs : ∀ k, Sees T' a x.userId k → Sees T a x.userId k) : Sound T' a x := by
  unfold Sound at h ⊢
  split
  · next hx =>
    rw [hx] at h
    exact fun k k' hk hk' => h k k' (hs k hk) (hs k' hk')
  · next hx =>
    rw [hx] at h
    exact fun k hk => h k (hs k hk)
  · next hx =>
    rw [hx] at h
    exact fun k hk => h k (hs k hk)

/-! ### One statement -/

section Statement

variable {T T' : Sessions} {a b : ℕ} {x x' : Transaction}

theorem consistent_effect (h : T.Consistent) (he : x.Effect T a T' x') : T'.Consistent := by
  cases he with
  | absent | stale | found => exact h
  | touch _ _ _ hfree => exact h.write (fun _ => rfl) hfree
  | close _ _ hfree => exact h.write (fun _ => rfl) hfree
  | create _ _ _ _ hb hc => exact h.insert hb hc

theorem not_isActive_closed (userId : ℤ) (session : DreamSession) :
    ¬ IsActive userId session.closed := by
  simp [IsActive, DreamSession.closed]

theorem evolves_effect (hc : T.Consistent) (h : T.Evolves Closes) (he : x.Effect T a T' x') :
    T'.Evolves Closes := by
  cases he with
  | absent | stale | found => exact h
  | touch => exact h.write hc (closes_refl a) fun _ _ _ _ hR => hR
  | close =>
    exact h.write hc (closes_refl a) fun _ r _ _ _ userId ha =>
      absurd ha (not_isActive_closed userId r)
  | create => exact h.insert

theorem view_effect (he : x.Effect T a T' x') (hb : b ≠ a) : T'.view b = T.view b := by
  cases he with
  | absent | stale | found => rfl
  | touch | close => exact Table.view_write_of_ne hb
  | create => exact Table.view_insert_of_ne hb

theorem committed_effect (he : x.Effect T a T' x') : T'.committed = T.committed := by
  cases he <;> simp

theorem inserts_effect_of_ne (he : x.Effect T a T' x') (hb : b ≠ a) :
    T'.inserts b = T.inserts b := by
  cases he with
  | absent | stale | found => rfl
  | touch | close => exact Table.write_inserts_of_ne hb
  | create => exact Table.insert_inserts_of_ne hb

theorem updates_effect_of_ne (he : x.Effect T a T' x') (hb : b ≠ a) :
    T'.updates b = T.updates b := by
  cases he with
  | absent | stale | found | create => rfl
  | touch | close => exact Table.write_updates_of_ne hb

/-- A write keeps the users of the rows that the transaction has created. -/
theorem own_write {k : Uuid} {f : DreamSession → DreamSession}
    (hf : ∀ session, (f session).userId = session.userId)
    (h : ∀ r ∈ T.inserts a, r.userId = x.userId) :
    ∀ r ∈ (T.write a k f).inserts a, r.userId = x.userId := by
  intro r hr
  rcases Table.write_inserts (T := T) (a := a) (k := k) f with he | he <;> rw [he] at hr
  · exact h r hr
  · rcases mem_modify hr with ⟨hr, -⟩ | ⟨r₀, hr₀, -, rfl⟩
    · exact h r hr
    · exact (hf r₀).trans (h r₀ hr₀)

theorem own_effect (he : x.Effect T a T' x') (h : ∀ r ∈ T.inserts a, r.userId = x.userId) :
    ∀ r ∈ T'.inserts a, r.userId = x'.userId := by
  cases he with
  | absent | stale | found => exact h
  | touch => exact own_write (fun _ => rfl) h
  | close => exact own_write (fun _ => rfl) h
  | create calls session _ hu =>
    intro r hr
    simp only [Table.insert, if_true, List.mem_append, List.mem_singleton] at hr
    rcases hr with hr | rfl
    · exact h r hr
    · exact hu

/-- What `get_active_session_raw` returns over the rows that a transaction sees. -/
theorem sees_of_raw {row : DreamSession} {userId : ℤ} (hc : T.Consistent)
    (h : getActiveSessionRaw (T.view a) userId = some row) : Sees T a userId row.id := by
  obtain ⟨hm, ha⟩ := mem_actives.mp (mem_actives_of_raw h)
  exact ⟨row, get_of_mem (hc.view_distinctKeys a) hm, ha⟩

theorem not_sees_of_raw {userId : ℤ} (h : getActiveSessionRaw (T.view a) userId = none) (k : Uuid) :
    ¬ Sees T a userId k := by
  rintro ⟨r, hr, ha⟩
  have hm : r ∈ actives (T.view a) userId := mem_actives.mpr ⟨mem_of_get hr, ha⟩
  rw [raw_eq_none.mp h] at hm
  cases hm

/-- Every statement leaves its transaction with what its next stage relies on. -/
theorem sound_effect (hc : T.Consistent) (h : Sound T a x) (he : x.Effect T a T' x') :
    Sound T' a x' := by
  cases he with
  | absent hs hraw => exact not_sees_of_raw hraw
  | stale hs row hraw =>
    simp only [Sound, hs] at h
    exact fun k hk => h k row.id hk (sees_of_raw hc hraw)
  | found calls held hs =>
    simp only [Sound, hs] at h ⊢
    exact h
  | touch calls sessionId hs hfree =>
    refine h.mono fun k hk => ?_
    obtain ⟨r, hr, ha⟩ := hk
    rw [hc.seen_write (f := x.touched) (fun _ => rfl) hfree] at hr
    split at hr
    · next hk =>
      obtain ⟨r₀, hr₀, rfl⟩ := Option.map_eq_some_iff.mp hr
      exact ⟨r₀, hk ▸ hr₀, ha⟩
    · exact ⟨r, hr, ha⟩
  | close sessionId hs hfree =>
    simp only [Sound, hs] at h
    rintro k ⟨r, hr, ha⟩
    rw [hc.seen_write (f := DreamSession.closed) (fun _ => rfl) hfree] at hr
    split at hr
    · obtain ⟨r₀, -, rfl⟩ := Option.map_eq_some_iff.mp hr
      exact not_isActive_closed _ _ ha
    · next hk => exact hk (h k ⟨r, hr, ha⟩)
  | create calls session hs hu hb hcf =>
    simp only [Sound, hs] at h
    have hnew : ∀ k, Sees (T.insert a session) a x.userId k → k = session.id := by
      rintro k ⟨r, hr, ha⟩
      rw [Table.seen_insert hcf] at hr
      split at hr
      · next hk => exact hk
      · exact absurd ⟨r, hr, ha⟩ (h k)
    exact fun k k' hk hk' => (hnew k hk).trans (hnew k' hk').symm

end Statement

/-! ### Every event -/

section Step

variable {userId : ℤ} {s t : State} {a : ℕ}

/-- The committed rows have one active session of the user, key by key. -/
theorem Wf.unique (hw : Wf userId s) {k k' : Uuid} {c c' : DreamSession}
    (hc : s.sessions.row k = some c) (ha : IsActive userId c)
    (hc' : s.sessions.row k' = some c') (ha' : IsActive userId c') : k = k' :=
  (length_actives_le_one hw.consistent.unique).mp hw.one k k' ⟨c, hc, ha⟩ ⟨c', hc', ha'⟩

theorem wf_quiet {sessions : List DreamSession} (hk : DistinctKeys sessions)
    (h : OneActive userId (quiet sessions)) : Wf userId (quiet sessions) :=
  ⟨Table.consistent_ofRows hk, Table.evolves_ofRows sessions, Table.untouched_ofRows sessions, h,
    by simp [quiet]⟩

theorem own_update {T : Sessions} {txs : ℕ → Option Transaction} {tx : Option Transaction}
    (ha : Own T a tx) (hb : ∀ b, b ≠ a → Own T b (txs b)) (b : ℕ) :
    Own T b (Function.update txs a tx b) := by
  by_cases h : b = a
  · subst h
    rwa [Function.update_self]
  · rw [Function.update_of_ne h]
    exact hb b h

/-- Whose new rows they are depends on a transaction's own work alone. -/
theorem Own.congr {T T' : Sessions} {b : ℕ} {tx : Option Transaction} (h : Own T b tx)
    (hu : T'.updates b = T.updates b) (hi : T'.inserts b = T.inserts b) : Own T' b tx := by
  cases tx with
  | none => exact ⟨fun k => (congrFun hu k).trans (h.1 k), hi.trans h.2⟩
  | some x => exact fun r hr => h r (hi ▸ hr)

/-- A transaction without new rows sees active what is active in the committed rows. -/
theorem unique_of_inserts_nil {T : Sessions} (hc : T.Consistent) (he : T.Evolves Closes)
    (ho : (actives T.committed userId).length ≤ 1) (hi : T.inserts a = []) {k k' : Uuid}
    (h : Sees T a userId k) (h' : Sees T a userId k') : k = k' := by
  have hrow : ∀ k, Sees T a userId k → ∃ c, T.row k = some c ∧ IsActive userId c := by
    intro k hk
    refine (active_of_sees hc he hk).resolve_left ?_
    simp [hi]
  exact (length_actives_le_one hc.unique).mp ho k k' (hrow k h) (hrow k' h')

theorem wf_begin {user : ℤ} {program : Program} {startedAt : Time} (hw : Wf userId s)
    (ht : step s (.begin a user program startedAt) = some t) : Wf userId t := by
  simp only [step, Option.ite_none_right_eq_some, Option.some.injEq] at ht
  obtain ⟨hn, rfl⟩ := ht
  have hunt : s.sessions.Untouched a := by simpa [Own, hn] using hw.own a
  refine ⟨hw.consistent, hw.evolves, own_update ?_ fun b _ => hw.own b, hw.one, ?_⟩
  · simp [Own, hunt.2]
  · intro b x hx hu ho
    by_cases hb : b = a
    · subst hb
      obtain rfl : _ = x := by simpa using hx
      exact fun k k' => unique_of_inserts_nil hw.consistent hw.evolves (hu ▸ hw.one) hunt.2
    · simp only [Function.update_of_ne hb] at hx ho
      exact hw.sound b x hx hu ho

theorem wf_statement {id : Uuid} {now : Time} (hw : Wf userId s)
    (ht : step s (.step a id now) = some t) : Wf userId t := by
  simp only [step, Option.bind_eq_bind, Option.bind_eq_some_iff, Option.some.injEq, Prod.exists]
    at ht
  obtain ⟨x, hx, T', x', hstep, rfl⟩ := ht
  have he := Transaction.effect_of_step hstep
  have hown : ∀ r ∈ s.sessions.inserts a, r.userId = x.userId := by simpa [Own, hx] using hw.own a
  refine ⟨consistent_effect hw.consistent he, evolves_effect hw.consistent hw.evolves he,
    own_update (own_effect he hown) fun b hb => ?_, ?_, ?_⟩
  · exact (hw.own b).congr (updates_effect_of_ne he hb) (inserts_effect_of_ne he hb)
  · simpa only [OneActive, committed_effect he] using hw.one
  · intro b y hy hu ho
    by_cases hb : b = a
    · subst hb
      obtain rfl : x' = y := by simpa using hy
      exact sound_effect hw.consistent (hw.sound b x hx (he.userId.symm.trans hu) ho) he
    · simp only [Function.update_of_ne hb] at hy
      exact (hw.sound b y hy hu ho).mono fun _ => sees_of_view_eq (view_effect he hb)

theorem wf_rollback (hw : Wf userId s) (ht : step s (.rollback a) = some t) : Wf userId t := by
  simp only [step, Option.ite_none_left_eq_some, Option.some.injEq] at ht
  obtain ⟨-, rfl⟩ := ht
  refine ⟨hw.consistent.rollback a, hw.evolves.rollback a,
    own_update Table.untouched_rollback fun b hb => ?_, hw.one, ?_⟩
  · obtain ⟨hu, hi⟩ := s.sessions.rollback_work_of_ne hb
    exact (hw.own b).congr hu hi
  · intro b y hy hu ho
    have hb : b ≠ a := by
      rintro rfl
      simp at hy
    simp only [Function.update_of_ne hb] at hy
    obtain ⟨hup, hin⟩ := s.sessions.rollback_work_of_ne hb
    refine (hw.sound b y hy hu ho).mono fun _ => sees_of_view_eq ?_
    rw [Table.view, Table.view, hup, hin, Table.rollback_committed]

/-- The commit of a transaction that was not overtaken leaves one active session. -/
theorem oneActive_commit (hw : Wf userId s) {x : Transaction} (hx : s.txs a = some x)
    (hready : x.stage = .ready) (hok : x.userId = userId → s.overtaken a = false) :
    (actives (s.sessions.commit a).committed userId).length ≤ 1 := by
  refine (length_actives_le_one (hw.consistent.commit a).unique).mpr fun k k' hk hk' => ?_
  by_cases hu : x.userId = userId
  · have hsound := hw.sound a x hx hu (hok hu)
    simp only [Sound, hready, hu] at hsound
    exact hsound k k' hk hk'
  · -- the sessions it has created belong to another user
    have hown : ∀ r ∈ s.sessions.inserts a, r.userId = x.userId := by
      simpa [Own, hx] using hw.own a
    have hrow : ∀ k, Sees s.sessions a userId k →
        ∃ c, s.sessions.row k = some c ∧ IsActive userId c := by
      intro k hk
      refine (active_of_sees hw.consistent hw.evolves hk).resolve_left ?_
      rintro ⟨r, hr, -, ha⟩
      exact hu ((hown r hr).symm.trans ha.1)
    obtain ⟨c, hc, ha⟩ := hrow k hk
    obtain ⟨c', hc', ha'⟩ := hrow k' hk'
    exact hw.unique hc ha hc' ha'

theorem wf_commit (hw : Wf userId s) (hok : NotOvertaken userId s (.commit a))
    (ht : step s (.commit a) = some t) : Wf userId t := by
  simp only [step, Option.bind_eq_bind, Option.bind_eq_some_iff, Option.ite_none_right_eq_some,
    Option.some.injEq] at ht
  obtain ⟨x, hx, ⟨hready, -⟩, rfl⟩ := ht
  have hone := oneActive_commit hw hx hready (hok x hx)
  refine ⟨hw.consistent.commit a, hw.evolves.commit hw.consistent a,
    own_update Table.untouched_rollback fun b hb => ?_, hone, ?_⟩
  · obtain ⟨hu, hi⟩ := s.sessions.rollback_work_of_ne hb
    exact (hw.own b).congr hu hi
  · intro b y hy hu ho
    have hb : b ≠ a := by
      rintro rfl
      simp at hy
    simp only [Function.update_of_ne hb] at hy
    simp only [Bool.or_eq_false_iff, decide_eq_false_iff_not] at ho
    by_cases hcr : Creates s.sessions b y
    · refine (hw.sound b y hy hu ho.1).mono fun k hk => ?_
      refine (sees_commit hw.consistent hw.evolves hb hk).resolve_right ?_
      rintro ⟨r, hr, -, ha⟩
      have hown : r.userId = x.userId := by
        have h := hw.own a
        rw [hx] at h
        exact h r hr
      exact ho.2 ⟨List.ne_nil_of_mem hr, y, hy, ha.1.symm.trans hown, hcr⟩
    · obtain ⟨hs, hi⟩ := not_or.mp hcr
      rw [not_not] at hs hi
      simp only [Sound, hs]
      refine fun k k' => unique_of_inserts_nil (hw.consistent.commit a)
        (hw.evolves.commit hw.consistent a) (hu ▸ hone) ?_
      rw [← hi]
      exact (s.sessions.rollback_work_of_ne hb).2

theorem wf_step {e : Event} (hw : Wf userId s) (hok : NotOvertaken userId s e)
    (ht : step s e = some t) : Wf userId t := by
  cases e with
  | begin => exact wf_begin hw ht
  | step => exact wf_statement hw ht
  | commit => exact wf_commit hw hok ht
  | rollback => exact wf_rollback hw ht

end Step

/-- In every run in which no overtaken transaction of the user commits, the user has at most
one active session in every state. -/
theorem oneActive_of_notOvertaken {userId : ℤ} {sessions : List DreamSession}
    (hk : DistinctKeys sessions) (h : OneActive userId (quiet sessions)) {es : List Event}
    (hg : Guarded step (NotOvertaken userId) (quiet sessions) es) :
    Always step (OneActive userId) (quiet sessions) es :=
  (always_of_guarded (fun _ _ _ hw hok ht => wf_step hw hok ht) (wf_quiet hk h) hg).mono
    fun _ hw => hw.one

/-! ### Examples -/

instance (userId : ℤ) (s : State) : ∀ e, Decidable (NotOvertaken userId s e)
  | .commit a => inferInstanceAs (Decidable (∀ x ∈ s.txs a, _))
  | .begin .. | .step .. | .rollback .. => isTrue trivial

/-- Two messages of user 3 overlap, and the second one looks for an active session when the
first one has committed it. -/
def overlapping : List Event :=
  [.begin 0 3 (.message .dialogueTurn) 0, .begin 1 3 (.message .dialogueTurn) 0] ++
    List.replicate 3 (.step 0 10 0) ++ [.commit 0] ++ List.replicate 2 (.step 1 11 0) ++ [.commit 1]

theorem oneActive_empty : OneActive 3 (quiet []) := Nat.zero_le 1

theorem oneActive_overlapping : Always step (OneActive 3) (quiet []) overlapping ∧
    (run step (quiet []) overlapping).map (fun s =>
      (actives s.sessions.committed 3).map DreamSession.id) = some [10] :=
  ⟨oneActive_of_notOvertaken distinctKeys_nil oneActive_empty (by decide), by decide⟩

/-- Both messages look for an active session before either has created one. -/
def together : List Event :=
  [.begin 0 3 (.message .dialogueTurn) 0, .begin 1 3 (.message .dialogueTurn) 0,
    .step 0 10 0, .step 1 11 0] ++ List.replicate 2 (.step 0 10 0) ++ [.commit 0] ++
    List.replicate 2 (.step 1 11 0) ++ [.commit 1]

theorem run_together : (run step (quiet []) together).map (fun s =>
    (actives s.sessions.committed 3).map DreamSession.id) = some [10, 11] := by
  decide

theorem two_active_sessions : ¬ ∀ (userId : ℤ) (sessions : List DreamSession),
    DistinctKeys sessions → OneActive userId (quiet sessions) →
    ∀ es, Always step (OneActive userId) (quiet sessions) es := by
  intro h
  obtain ⟨s, hs, hids⟩ := Option.map_eq_some_iff.mp run_together
  have hone := (h 3 [] distinctKeys_nil oneActive_empty together).of_run hs
  have hlen := congrArg List.length hids
  rw [List.length_map] at hlen
  rw [OneActive, hlen] at hone
  exact absurd hone (by decide)

end LiberNovus.Session.ActiveSessions

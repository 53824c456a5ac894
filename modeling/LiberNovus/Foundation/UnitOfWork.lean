import Mathlib.Logic.Basic
import Mathlib.Logic.Relation

/-! Code that runs statements in one transaction of a database session, with exceptions
and savepoints. `σ` are the tables and `ε` the exceptions of the code itself.

A flush that fails leaves the session unusable: until a rollback every statement raises.
A savepoint that is left with an exception is rolled back to, which makes the session
usable again. -/

namespace LiberNovus.UnitOfWork

universe u v w

/-- What a piece of code can raise: an exception of its own, the error of the database in a
flush, or the error of a statement in an unusable session. -/
inductive Failure (ε : Type v) where
  | raised (e : ε)
  | integrity (message : String)
  | pendingRollback
  deriving DecidableEq

/-- `tables` is what the transaction sees, `committed` what a rollback leaves. -/
structure AsyncSession (σ : Type u) where
  tables : σ
  committed : σ
  usable : Bool

/-- The session at the start of a transaction. -/
def AsyncSession.opened {σ : Type u} (tables : σ) : AsyncSession σ := ⟨tables, tables, true⟩

/-- A piece of code. -/
def Tx (σ : Type u) (ε : Type v) (α : Type w) : Type (max u v w) :=
  AsyncSession σ → Except (Failure ε) α × AsyncSession σ

namespace Tx

variable {σ : Type u} {ε : Type v} {α β : Type w}

instance : Monad (Tx σ ε) where
  pure a := fun s => (.ok a, s)
  bind m f := fun s => match m s with
    | (.ok a, s') => f a s'
    | (.error e, s') => (.error e, s')

def fail (e : Failure ε) : Tx σ ε α := fun s => (.error e, s)

def raise (e : ε) : Tx σ ε α := fail (.raised e)

/-- The outcome of a computation without statements. -/
def lift : Except ε α → Tx σ ε α
  | .ok a => pure a
  | .error e => raise e

/-- Statements that do not violate a constraint, and the exceptions of the code between
them. -/
def statement (f : σ → Except ε (α × σ)) : Tx σ ε α := fun s =>
  if s.usable then
    match f s.tables with
    | .ok (a, tables) => (.ok a, { s with tables := tables })
    | .error e => (.error (.raised e), s)
  else (.error .pendingRollback, s)

/-- A `SELECT`. -/
def query (f : σ → α) : Tx σ ε α := statement fun tables => .ok (f tables, tables)

/-- A flush of pending rows, with the message of the error it fails with. -/
def flush (conflict : σ → Option String) (f : σ → σ) : Tx σ ε PUnit := fun s =>
  if s.usable then
    match conflict s.tables with
    | none => (.ok ⟨⟩, { s with tables := f s.tables })
    | some message => (.error (.integrity message), { s with usable := false })
  else (.error .pendingRollback, s)

/-- `try`: the outcome of a piece of code, whatever it is. -/
def attempt (m : Tx σ ε α) : Tx σ ε (Except (Failure ε) α) := fun s => (.ok (m s).1, (m s).2)

/-- A savepoint. -/
def nested (m : Tx σ ε α) : Tx σ ε α := fun s =>
  if s.usable then
    match m s with
    | (.ok a, s') => if s'.usable then (.ok a, s') else
        (.error .pendingRollback, { s' with tables := s.tables, usable := true })
    | (.error e, s') => (.error e, { s' with tables := s.tables, usable := true })
  else (.error .pendingRollback, s)

/-- The commit of another transaction becomes visible. -/
def interleave (f : σ → σ) : Tx σ ε PUnit := fun s =>
  (.ok ⟨⟩, { s with tables := f s.tables, committed := f s.committed })

/-- A transaction: the outcome, and the tables after its commit or rollback. -/
def transaction (m : Tx σ ε α) (tables : σ) : Except (Failure ε) α × σ :=
  match m (.opened tables) with
  | (.ok a, s) => if s.usable then (.ok a, s.tables) else (.error .pendingRollback, s.committed)
  | (.error e, s) => (.error e, s.committed)

/-! ### Outcomes -/

variable {m : Tx σ ε α} {f : α → Tx σ ε β} {s s' : AsyncSession σ}

@[simp] theorem pure_apply (a : α) : (pure a : Tx σ ε α) s = (.ok a, s) := rfl

@[simp] theorem fail_apply (e : Failure ε) : (fail e : Tx σ ε α) s = (.error e, s) := rfl

@[simp] theorem raise_apply (e : ε) : (raise e : Tx σ ε α) s = (.error (.raised e), s) := rfl

theorem bind_ok {a : α} (h : m s = (.ok a, s')) : (m >>= f) s = f a s' := by
  show (match m s with | (.ok a, s') => f a s' | (.error e, s') => (.error e, s')) = _
  rw [h]

theorem bind_error {e : Failure ε} (h : m s = (.error e, s')) : (m >>= f) s = (.error e, s') := by
  show (match m s with | (.ok a, s') => f a s' | (.error e, s') => (.error e, s')) = _
  rw [h]

theorem bind_eq_ok {b : β} {t : AsyncSession σ} :
    (m >>= f) s = (.ok b, t) ↔ ∃ a s', m s = (.ok a, s') ∧ f a s' = (.ok b, t) := by
  rcases hm : m s with ⟨e | a, s'⟩
  · rw [bind_error hm]
    simp
  · rw [bind_ok hm]
    constructor
    · exact fun h => ⟨a, s', rfl, h⟩
    · rintro ⟨a', t', ⟨⟩, h⟩
      exact h

theorem bind_eq_error {e : Failure ε} {t : AsyncSession σ} :
    (m >>= f) s = (.error e, t) ↔
      m s = (.error e, t) ∨ ∃ a s', m s = (.ok a, s') ∧ f a s' = (.error e, t) := by
  rcases hm : m s with ⟨e' | a, s'⟩
  · rw [bind_error hm]
    simp
  · rw [bind_ok hm]
    constructor
    · exact fun h => .inr ⟨a, s', rfl, h⟩
    · rintro (h | ⟨a', t', ⟨⟩, h⟩)
      · cases h
      · exact h

theorem attempt_ok {a : α} (h : m s = (.ok a, s')) : attempt m s = (.ok (.ok a), s') := by
  simp [attempt, h]

theorem attempt_error {e : Failure ε} (h : m s = (.error e, s')) :
    attempt m s = (.ok (.error e), s') := by
  simp [attempt, h]

theorem lift_ok (a : α) : (lift (.ok a) : Tx σ ε α) s = (.ok a, s) := rfl

theorem lift_error (e : ε) : (lift (.error e) : Tx σ ε α) s = (.error (.raised e), s) := rfl

section Statement

variable {g : σ → Except ε (α × σ)} {conflict : σ → Option String} {h : σ → σ}

theorem statement_ok (hs : s.usable = true) {a : α} {tables : σ} (hg : g s.tables = .ok (a, tables)) :
    statement g s = (.ok a, { s with tables := tables }) := by
  simp [statement, hs, hg]

theorem statement_unusable (hs : s.usable = false) :
    statement g s = (.error .pendingRollback, s) := by
  simp [statement, hs]

theorem query_ok (hs : s.usable = true) (q : σ → α) :
    (query q : Tx σ ε α) s = (.ok (q s.tables), s) := statement_ok hs rfl

theorem eq_of_query {q : σ → α} {a : α} (h : (query q : Tx σ ε α) s = (.ok a, s')) :
    a = q s.tables := by
  unfold query statement at h
  split at h <;> cases h
  rfl

theorem flush_ok (hs : s.usable = true) (hc : conflict s.tables = none) :
    (flush conflict h : Tx σ ε PUnit) s = (.ok ⟨⟩, { s with tables := h s.tables }) := by
  simp [flush, hs, hc]

theorem flush_conflict (hs : s.usable = true) {message : String}
    (hc : conflict s.tables = some message) :
    (flush conflict h : Tx σ ε PUnit) s = (.error (.integrity message), { s with usable := false }) := by
  simp [flush, hs, hc]

theorem nested_ok (hs : s.usable = true) {a : α} (hm : m s = (.ok a, s')) (hs' : s'.usable = true) :
    nested m s = (.ok a, s') := by
  simp [nested, hs, hm, hs']

end Statement

/-- The code raises and leaves the session unusable. -/
def Breaks (m : Tx σ ε α) (s : AsyncSession σ) : Prop :=
  ∃ e s', m s = (.error e, s') ∧ s'.usable = false

namespace Breaks

theorem flush {conflict : σ → Option String} {h : σ → σ} (hs : s.usable = true) {message : String}
    (hc : conflict s.tables = some message) : Breaks (flush conflict h : Tx σ ε PUnit) s :=
  ⟨_, _, flush_conflict hs hc, rfl⟩

theorem bind (h : Breaks m s) : Breaks (m >>= f) s := by
  obtain ⟨e, s', h, hs⟩ := h
  exact ⟨e, s', bind_error h, hs⟩

theorem bind_of_ok {a : α} (h : m s = (.ok a, s')) (hf : Breaks (f a) s') : Breaks (m >>= f) s := by
  obtain ⟨e, t, hf, ht⟩ := hf
  exact ⟨e, t, (bind_ok h).trans hf, ht⟩

end Breaks

/-- The code returns and leaves the session usable. -/
def Succeeds (m : Tx σ ε α) (s : AsyncSession σ) : Prop :=
  ∃ a s', m s = (.ok a, s') ∧ s'.usable = true

namespace Succeeds

theorem pure (hs : s.usable = true) (a : α) : Succeeds (pure a : Tx σ ε α) s := ⟨a, s, rfl, hs⟩

theorem bind_of_ok {a : α} (h : m s = (.ok a, s')) (hf : Succeeds (f a) s') :
    Succeeds (m >>= f) s := by
  obtain ⟨b, t, hf, ht⟩ := hf
  exact ⟨b, t, (bind_ok h).trans hf, ht⟩

end Succeeds

/-! ### Commit and rollback -/

section Transaction

variable {tables : σ}

theorem transaction_ok {a : α} (h : m (.opened tables) = (.ok a, s)) (hs : s.usable = true) :
    transaction m tables = (.ok a, s.tables) := by
  simp [transaction, h, hs]

theorem transaction_error {e : Failure ε} (h : m (.opened tables) = (.error e, s)) :
    transaction m tables = (.error e, s.committed) := by
  simp [transaction, h]

end Transaction

/-! ### What a piece of code keeps -/

/-- `P` holds of the tables and of the committed ones and, when `safe`, the session is
usable. -/
structure Holds (P : σ → Prop) (safe : Prop) (s : AsyncSession σ) : Prop where
  tables : P s.tables
  committed : P s.committed
  usable : safe → s.usable = true

/-- Whatever its outcome, the code keeps this. -/
def Keeps (P : σ → Prop) (safe : Prop) (m : Tx σ ε α) : Prop :=
  ∀ s, Holds P safe s → Holds P safe (m s).2

namespace Keeps

variable {P : σ → Prop} {safe : Prop}

theorem pure (a : α) : Keeps P safe (pure a : Tx σ ε α) := fun _ h => h

theorem fail (e : Failure ε) : Keeps P safe (fail e : Tx σ ε α) := fun _ h => h

theorem raise (e : ε) : Keeps P safe (raise e : Tx σ ε α) := fun _ h => h

theorem lift (r : Except ε α) : Keeps P safe (lift r : Tx σ ε α) := by
  cases r
  · exact raise _
  · exact pure _

theorem bind (hm : Keeps P safe m) (hf : ∀ a, Keeps P safe (f a)) : Keeps P safe (m >>= f) := by
  intro s h
  have hs' := hm s h
  rcases hs : m s with ⟨e | a, s'⟩ <;> rw [hs] at hs'
  · rw [bind_error hs]
    exact hs'
  · rw [bind_ok hs]
    exact hf a s' hs'

theorem attempt (hm : Keeps P safe m) : Keeps P safe (attempt m) := fun s h => hm s h

theorem statement {g : σ → Except ε (α × σ)}
    (hg : ∀ tables a after, P tables → g tables = .ok (a, after) → P after) :
    Keeps P safe (statement g) := by
  intro s h
  unfold Tx.statement
  split
  · split
    · next a after he => exact ⟨hg _ a after h.tables he, h.committed, h.usable⟩
    · exact h
  · exact h

theorem query (g : σ → α) : Keeps P safe (query g : Tx σ ε α) :=
  statement fun tables a after ht he => by cases he; exact ht

/-- What a transaction that keeps `P` has done when its code ends. -/
theorem opened (hm : Keeps P safe m) {tables : σ} (h : P tables) {r : Except (Failure ε) α}
    (hr : m (.opened tables) = (r, s)) : Holds P safe s := by
  have hs := hm (.opened tables) ⟨h, h, fun _ => rfl⟩
  rwa [hr] at hs

/-- A flush may leave the session unusable. -/
theorem flush {conflict : σ → Option String} {g : σ → σ} (hg : ∀ tables, P tables → P (g tables)) :
    Keeps P False (flush conflict g : Tx σ ε PUnit) := by
  intro s h
  unfold Tx.flush
  split
  · split
    · exact ⟨hg _ h.tables, h.committed, False.elim⟩
    · exact ⟨h.tables, h.committed, False.elim⟩
  · exact h

/-- A savepoint leaves it usable. -/
theorem nested (hm : Keeps P False m) : Keeps P safe (nested m) := by
  intro s h
  have hs := hm s ⟨h.tables, h.committed, False.elim⟩
  unfold Tx.nested
  split
  · rcases he : m s with ⟨e | a, s'⟩
    · rw [he] at hs
      exact ⟨h.tables, hs.committed, fun _ => rfl⟩
    · rw [he] at hs
      dsimp only
      split
      · next hu => exact ⟨hs.tables, hs.committed, fun _ => hu⟩
      · exact ⟨h.tables, hs.committed, fun _ => rfl⟩
  · exact h

theorem interleave {g : σ → σ} (hg : ∀ tables, P tables → P (g tables)) :
    Keeps P safe (interleave g : Tx σ ε PUnit) := fun _ h =>
  ⟨hg _ h.tables, hg _ h.committed, h.usable⟩

end Keeps

/-- Code that keeps a property goes on from where it holds. -/
theorem Holds.bind {P : σ → Prop} {safe : Prop} (hm : Holds P safe (m s).2)
    (hf : ∀ a, Keeps P safe (f a)) : Holds P safe ((m >>= f) s).2 := by
  rcases h : m s with ⟨e | a, s'⟩ <;> rw [h] at hm
  · rw [bind_error h]
    exact hm
  · rw [bind_ok h]
    exact hf a s' hm

theorem Holds.flush {P : σ → Prop} {safe : Prop} (h : Holds P safe s)
    {conflict : σ → Option String} {g : σ → σ} (hg : P (g s.tables)) :
    Holds P False (flush conflict g s : Except (Failure ε) PUnit × AsyncSession σ).2 := by
  unfold Tx.flush
  split
  · split
    · exact ⟨hg, h.committed, False.elim⟩
    · exact ⟨h.tables, h.committed, False.elim⟩
  · exact ⟨h.tables, h.committed, False.elim⟩

/-- What holds when the code ends holds of what the transaction leaves. -/
theorem Holds.transaction {P : σ → Prop} {safe : Prop} {tables : σ}
    (h : Holds P safe (m (.opened tables)).2) : P (transaction m tables).2 := by
  unfold Tx.transaction
  rcases hm : m (.opened tables) with ⟨e | a, s'⟩ <;> rw [hm] at h
  · exact h.committed
  · dsimp only
    split
    · exact h.tables
    · exact h.committed

/-- The same for a property of the whole session. -/
def Preserves (I : AsyncSession σ → Prop) (m : Tx σ ε α) : Prop := ∀ s, I s → I (m s).2

namespace Preserves

variable {I : AsyncSession σ → Prop}

theorem pure (a : α) : Preserves I (pure a : Tx σ ε α) := fun _ h => h

theorem fail (e : Failure ε) : Preserves I (fail e : Tx σ ε α) := fun _ h => h

theorem lift (x : Except ε α) : Preserves I (lift x : Tx σ ε α) := by
  cases x
  · exact fail _
  · exact pure _

theorem bind (hm : Preserves I m) (hf : ∀ a, Preserves I (f a)) : Preserves I (m >>= f) := by
  intro s h
  have hs := hm s h
  rcases he : m s with ⟨e | a, s'⟩ <;> rw [he] at hs
  · rw [bind_error he]
    exact hs
  · rw [bind_ok he]
    exact hf a s' hs

theorem statement {g : σ → Except ε (α × σ)}
    (hg : ∀ s a after, I s → g s.tables = .ok (a, after) → I { s with tables := after }) :
    Preserves I (statement g) := by
  intro s h
  unfold Tx.statement
  split
  · split
    · next a after he => exact hg s a after h he
    · exact h
  · exact h

theorem interleave {g : σ → σ}
    (hg : ∀ s, I s → I { s with tables := g s.tables, committed := g s.committed }) :
    Preserves I (interleave g : Tx σ ε PUnit) := hg

end Preserves

/-! ### What a piece of code sees others commit -/

/-- The committed tables change by commits of other transactions only, which `r` describes. -/
def Exposes (r : σ → σ → Prop) (m : Tx σ ε α) : Prop :=
  ∀ s, Relation.ReflTransGen r s.committed (m s).2.committed

/-- Nobody else commits anything meanwhile. -/
def Alone (m : Tx σ ε α) : Prop := Exposes (fun _ _ => False) m

namespace Exposes

variable {r : σ → σ → Prop}

theorem mono {r' : σ → σ → Prop} (hr : ∀ c c', r c c' → r' c c') (hm : Exposes r m) :
    Exposes r' m := fun s =>
  Relation.ReflTransGen.mono hr _ _ (hm s)

theorem pure (a : α) : Exposes r (pure a : Tx σ ε α) := fun _ => .refl

theorem fail (e : Failure ε) : Exposes r (fail e : Tx σ ε α) := fun _ => .refl

theorem raise (e : ε) : Exposes r (raise e : Tx σ ε α) := fun _ => .refl

theorem lift (x : Except ε α) : Exposes r (lift x : Tx σ ε α) := by
  cases x
  · exact raise _
  · exact pure _

theorem bind (hm : Exposes r m) (hf : ∀ a, Exposes r (f a)) : Exposes r (m >>= f) := by
  intro s
  have hs := hm s
  rcases h : m s with ⟨e | a, s'⟩ <;> rw [h] at hs
  · rw [bind_error h]
    exact hs
  · rw [bind_ok h]
    exact hs.trans (hf a s')

theorem attempt (hm : Exposes r m) : Exposes r (attempt m) := fun s => hm s

theorem statement (g : σ → Except ε (α × σ)) : Exposes r (statement g) := by
  intro s
  unfold Tx.statement
  split
  · split <;> exact .refl
  · exact .refl

theorem query (g : σ → α) : Exposes r (query g : Tx σ ε α) := statement _

theorem flush (conflict : σ → Option String) (g : σ → σ) :
    Exposes r (flush conflict g : Tx σ ε PUnit) := by
  intro s
  unfold Tx.flush
  split
  · split <;> exact .refl
  · exact .refl

theorem nested (hm : Exposes r m) : Exposes r (nested m) := by
  intro s
  have hs := hm s
  unfold Tx.nested
  split
  · rcases h : m s with ⟨e | a, s'⟩ <;> rw [h] at hs
    · exact hs
    · dsimp only
      split <;> exact hs
  · exact .refl

theorem interleave {g : σ → σ} (hg : ∀ c, r c (g c)) : Exposes r (interleave g : Tx σ ε PUnit) :=
  fun s => .single (hg s.committed)

end Exposes

theorem Exposes.committed (hm : Exposes (fun c c' => c' = c) m) (s : AsyncSession σ) :
    (m s).2.committed = s.committed := by
  refine Relation.ReflTransGen.rec rfl (fun _ hstep ih => ?_) (hm s)
  exact hstep.trans ih

theorem Alone.committed (hm : Alone m) (s : AsyncSession σ) : (m s).2.committed = s.committed := by
  rcases (hm s).cases_tail with h | ⟨c, -, h⟩
  · exact h
  · exact h.elim

/-- A savepoint is left as it was entered, or as the code inside leaves it. -/
theorem nested_cases (hm : Alone m) (hs : s.usable = true) :
    (∃ e, nested m s = (.error e, s)) ∨
      ∃ a t, m s = (.ok a, t) ∧ nested m s = (.ok a, t) ∧ t.usable = true := by
  have hc := hm.committed s
  have hback : ∀ t : AsyncSession σ, t.committed = s.committed →
      { t with tables := s.tables, usable := true } = s := fun t ht => by
    rw [ht, ← hs]
  unfold nested
  rw [if_pos hs]
  rcases h : m s with ⟨e | a, t⟩ <;> rw [h] at hc
  · exact .inl ⟨e, congrArg (Prod.mk _) (hback t hc)⟩
  · dsimp only
    split
    · next ht => exact .inr ⟨a, t, rfl, rfl, ht⟩
    · exact .inl ⟨.pendingRollback, congrArg (Prod.mk _) (hback t hc)⟩

end Tx

end LiberNovus.UnitOfWork

import LiberNovus.Foundation.UnitOfWork
import Mathlib.Order.Defs.Unbundled

/-! Pre- and postconditions for code in a database session. A triple says, of code that is
started where `P` holds of the tables, that it moves them along the relation `R`, whatever its
outcome, that it leaves the committed tables alone, and that `Q` holds of what it returns and of
the tables then. A savepoint that is left with an exception puts the tables back, so `R` has to
be reflexive, and it is transitive for the sake of sequences. -/

namespace LiberNovus.UnitOfWork

universe u v w

variable {σ : Type u} {ε : Type v} {α β : Type w}

/-- The tables are moved along `R`, and nothing is committed. -/
structure Moved (R : σ → σ → Prop) (s t : AsyncSession σ) : Prop where
  tables : R s.tables t.tables
  committed : t.committed = s.committed

/-- Where `P` holds, the code moves the tables along `R` and returns what `Q` holds of. -/
def Triple (R : σ → σ → Prop) (P : σ → Prop) (m : Tx σ ε α) (Q : α → σ → Prop) : Prop :=
  ∀ s, P s.tables → Moved R s (m s).2 ∧ ∀ a, (m s).1 = .ok a → Q a (m s).2.tables

variable {R : σ → σ → Prop} {P : σ → Prop} {Q : α → σ → Prop} {m : Tx σ ε α}

namespace Triple

theorem mono {P' : σ → Prop} {Q' : α → σ → Prop} (h : Triple R P m Q) (hP : ∀ t, P' t → P t)
    (hQ : ∀ a t, Q a t → Q' a t) : Triple R P' m Q' := by
  intro s hs
  obtain ⟨hmoved, hok⟩ := h s (hP _ hs)
  exact ⟨hmoved, fun a ha => hQ a _ (hok a ha)⟩

/-- What `R` keeps may be added on both sides. -/
theorem frame {S : σ → Prop} (hS : ∀ t t', R t t' → S t → S t') (h : Triple R P m Q) :
    Triple R (fun t => P t ∧ S t) m fun a t => Q a t ∧ S t := by
  intro s hs
  obtain ⟨hmoved, hok⟩ := h s hs.1
  exact ⟨hmoved, fun a ha => ⟨hok a ha, hS _ _ hmoved.tables hs.2⟩⟩

theorem bind [IsTrans σ R] {f : α → Tx σ ε β} {Q' : β → σ → Prop} (hm : Triple R P m Q)
    (hf : ∀ a, Triple R (Q a) (f a) Q') : Triple R P (m >>= f) Q' := by
  intro s hs
  obtain ⟨hmoved, hok⟩ := hm s hs
  rcases h : m s with ⟨e | a, s'⟩ <;> rw [h] at hmoved hok
  · rw [Tx.bind_error h]
    exact ⟨hmoved, fun _ hb => by cases hb⟩
  · rw [Tx.bind_ok h]
    obtain ⟨hmoved', hok'⟩ := hf a s' (hok a rfl)
    refine ⟨⟨?_, hmoved'.committed.trans hmoved.committed⟩, hok'⟩
    exact IsTrans.trans _ _ _ hmoved.tables hmoved'.tables

/-- A command whose result nobody looks at. -/
theorem seq [IsTrans σ R] {m' : Tx σ ε β} {S : σ → Prop} {Q' : β → σ → Prop}
    (hm : Triple R P m fun _ => S) (hm' : Triple R S m' Q') :
    Triple R P (m >>= fun _ => m') Q' := hm.bind fun _ => hm'

theorem attempt (h : Triple R P m Q) :
    Triple R P (Tx.attempt m) fun r t => (∃ t₀, P t₀ ∧ R t₀ t) ∧ ∀ a, r = .ok a → Q a t := by
  intro s hs
  obtain ⟨hmoved, hok⟩ := h s hs
  refine ⟨hmoved, fun r hr => ⟨⟨_, hs, hmoved.tables⟩, ?_⟩⟩
  rintro a rfl
  exact hok a (Except.ok.inj hr)

variable [Std.Refl R]

theorem pure {a : α} (h : ∀ t, P t → Q a t) : Triple R P (pure a : Tx σ ε α) Q := by
  refine fun s hs => ⟨⟨Std.Refl.refl _, rfl⟩, fun b hb => ?_⟩
  obtain rfl := Except.ok.inj hb
  exact h _ hs

theorem fail {e : Failure ε} : Triple R P (Tx.fail e : Tx σ ε α) Q :=
  fun _ _ => ⟨⟨Std.Refl.refl _, rfl⟩, fun _ ha => by cases ha⟩

theorem raise {e : ε} : Triple R P (Tx.raise e : Tx σ ε α) Q := fail

theorem lift {x : Except ε α} (h : ∀ a t, x = .ok a → P t → Q a t) :
    Triple R P (Tx.lift x : Tx σ ε α) Q := by
  cases x with
  | ok a => exact pure fun t => h a t rfl
  | error e => exact raise

theorem statement {g : σ → Except ε (α × σ)}
    (h : ∀ t a t', P t → g t = .ok (a, t') → R t t' ∧ Q a t') : Triple R P (Tx.statement g) Q := by
  intro s hs
  unfold Tx.statement
  split
  · split
    · next a t' hg =>
      obtain ⟨hR, hQ⟩ := h _ _ _ hs hg
      refine ⟨⟨hR, rfl⟩, fun b hb => ?_⟩
      obtain rfl := Except.ok.inj hb
      exact hQ
    · exact ⟨⟨Std.Refl.refl _, rfl⟩, fun _ ha => by cases ha⟩
  · exact ⟨⟨Std.Refl.refl _, rfl⟩, fun _ ha => by cases ha⟩

theorem query {g : σ → α} (h : ∀ t, P t → Q (g t) t) : Triple R P (Tx.query g : Tx σ ε α) Q := by
  refine statement fun t a t' ht he => ?_
  cases he
  exact ⟨Std.Refl.refl _, h t ht⟩

theorem flush {conflict : σ → Option String} {g : σ → σ} {Q : PUnit → σ → Prop}
    (h : ∀ t, P t → R t (g t) ∧ Q ⟨⟩ (g t)) : Triple R P (Tx.flush conflict g : Tx σ ε PUnit) Q := by
  intro s hs
  unfold Tx.flush
  split
  · split
    · exact ⟨⟨(h _ hs).1, rfl⟩, fun _ _ => (h _ hs).2⟩
    · exact ⟨⟨Std.Refl.refl _, rfl⟩, fun _ ha => by cases ha⟩
  · exact ⟨⟨Std.Refl.refl _, rfl⟩, fun _ ha => by cases ha⟩

/-- A savepoint puts the tables back, or leaves them as the code inside does. -/
theorem nested (h : Triple R P m Q) : Triple R P (Tx.nested m) Q := by
  intro s hs
  obtain ⟨hmoved, hok⟩ := h s hs
  unfold Tx.nested
  split
  · rcases he : m s with ⟨e | a, s'⟩ <;> rw [he] at hmoved hok
    · exact ⟨⟨Std.Refl.refl _, hmoved.committed⟩, fun _ ha => by cases ha⟩
    · dsimp only
      split
      · exact ⟨hmoved, hok⟩
      · exact ⟨⟨Std.Refl.refl _, hmoved.committed⟩, fun _ ha => by cases ha⟩
  · exact ⟨⟨Std.Refl.refl _, rfl⟩, fun _ ha => by cases ha⟩

/-- Nobody commits anything. -/
theorem interleave {g : σ → σ} {Q : PUnit → σ → Prop} (hg : ∀ t, g t = t) (h : ∀ t, P t → Q ⟨⟩ t) :
    Triple R P (Tx.interleave g : Tx σ ε PUnit) Q := by
  intro s hs
  have hmove : ((Tx.interleave g : Tx σ ε PUnit) s).2 = s := by
    unfold Tx.interleave
    rw [hg, hg]
  rw [hmove]
  exact ⟨⟨Std.Refl.refl _, rfl⟩, fun _ _ => h _ hs⟩

/-- What a transaction commits, or it is rolled back. -/
theorem transaction {tables : σ} (h : Triple R P m Q) (hP : P tables) :
    R tables (Tx.transaction m tables).2 := by
  obtain ⟨hmoved, -⟩ := h (.opened tables) hP
  unfold Tx.transaction
  rcases hm : m (.opened tables) with ⟨e | a, s⟩ <;> rw [hm] at hmoved
  all_goals have hcommitted : s.committed = tables := hmoved.committed
  · dsimp only
    rw [hcommitted]
    exact Std.Refl.refl _
  · dsimp only
    split
    · exact hmoved.tables
    · rw [hcommitted]
      exact Std.Refl.refl _

end Triple

/-! ### Exceptions -/

/-- What the code may raise. -/
def Throws (E : Failure ε → Prop) (m : Tx σ ε α) : Prop := ∀ s e t, m s = (.error e, t) → E e

namespace Throws

variable {E : Failure ε → Prop}

theorem bind {f : α → Tx σ ε β} (hm : Throws E m) (hf : ∀ a, Throws E (f a)) :
    Throws E (m >>= f) := by
  intro s e t h
  rcases Tx.bind_eq_error.mp h with h | ⟨a, s', -, h⟩
  · exact hm s e t h
  · exact hf a s' e t h

theorem pure (a : α) : Throws E (pure a : Tx σ ε α) := fun _ _ _ h => by cases h

theorem lift {x : Except ε α} (h : ∀ e, x = .error e → E (.raised e)) :
    Throws E (Tx.lift x : Tx σ ε α) := by
  intro s e t he
  cases x with
  | ok a => cases he
  | error e' =>
    cases he
    exact h e' rfl

theorem statement {g : σ → Except ε (α × σ)} (hpending : E .pendingRollback)
    (h : ∀ t e, g t = .error e → E (.raised e)) : Throws E (Tx.statement g) := by
  intro s e t he
  unfold Tx.statement at he
  split at he
  · split at he
    · cases he
    · next hg =>
      cases he
      exact h _ _ hg
  · cases he
    exact hpending

theorem interleave (g : σ → σ) : Throws E (Tx.interleave g : Tx σ ε PUnit) :=
  fun _ _ _ h => by cases h

end Throws

end LiberNovus.UnitOfWork

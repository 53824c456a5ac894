import Mathlib.Data.List.Basic

/-! Computations that may fail: what a sequence of them needs to succeed. -/

namespace LiberNovus.Results

variable {ε α β : Type}

theorem bind_eq_ok {x : Except ε α} {f : α → Except ε β} {b : β} :
    (x >>= f) = .ok b ↔ ∃ a, x = .ok a ∧ f a = .ok b := by
  cases x <;> simp [bind, Except.bind]

theorem exists_of_isOk {x : Except ε α} (h : x.isOk = true) : ∃ a, x = .ok a := by
  cases x with
  | ok a => exact ⟨a, rfl⟩
  | error e => exact absurd h (by simp [Except.isOk, Except.toBool])

/-- A list is read item by item when each item is read from exactly one value. -/
theorem mapM_eq_ok {read : β → Except ε α} {dump : α → β} {P : α → Prop}
    (hread : ∀ v a, read v = .ok a ↔ v = dump a ∧ P a) {vs : List β} {l : List α} :
    vs.mapM read = .ok l ↔ vs = l.map dump ∧ ∀ a ∈ l, P a := by
  induction vs generalizing l with
  | nil => cases l <;> simp [pure, Except.pure]
  | cons v vs ih =>
    simp only [List.mapM_cons, bind_eq_ok, hread, ih, pure, Except.pure, Except.ok.injEq]
    constructor
    · rintro ⟨a, ⟨rfl, ha⟩, l, ⟨rfl, hl⟩, rfl⟩
      exact ⟨rfl, List.forall_mem_cons.mpr ⟨ha, hl⟩⟩
    · rintro ⟨hv, hl⟩
      cases l with
      | nil => cases hv
      | cons a l =>
        obtain ⟨rfl, rfl⟩ := List.cons_eq_cons.mp hv
        obtain ⟨ha, hl⟩ := List.forall_mem_cons.mp hl
        exact ⟨a, ⟨rfl, ha⟩, l, ⟨rfl, hl⟩, rfl⟩

theorem mapM_map_ok {γ : Type} {read : β → Except ε γ} {dump : α → β} {g : α → γ}
    (h : ∀ a, read (dump a) = .ok (g a)) (l : List α) : (l.map dump).mapM read = .ok (l.map g) := by
  induction l with
  | nil => rfl
  | cons a l ih =>
    rw [List.map_cons, List.mapM_cons, h, ih]
    rfl

end LiberNovus.Results

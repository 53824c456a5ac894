import LiberNovus.Foundation.Results

/-! Checks one after another, each of which passes, is refused with a declared error, or breaks
with another one. The first that does not pass decides. -/

namespace LiberNovus.Checks

open Results

inductive Verdict where
  | passed | refused | broken
  deriving DecidableEq, Repr

variable {ε α β : Type} (declared : ε → Bool)

/-- How a computation ends. -/
def verdict : Except ε α → Verdict
  | .ok _ => .passed
  | .error e => if declared e then .refused else .broken

/-- The first verdict that is not a pass. -/
def first : List Verdict → Verdict
  | [] => .passed
  | .passed :: rest => first rest
  | v :: _ => v

theorem first_eq_passed {l : List Verdict} : first l = .passed ↔ ∀ v ∈ l, v = .passed := by
  induction l with
  | nil => simp [first]
  | cons v l ih => cases v <;> simp [first, ih]

theorem first_append (l l' : List Verdict) : first (l ++ l') = first (first l :: l') := by
  induction l with
  | nil => rfl
  | cons v l ih =>
    cases v with
    | passed => exact ih
    | refused | broken => rfl

variable {declared}

theorem verdict_eq_passed {x : Except ε α} : verdict declared x = .passed ↔ ∃ a, x = .ok a := by
  cases x with
  | ok a => simp [verdict]
  | error e =>
    refine iff_of_false ?_ (by simp)
    unfold verdict
    dsimp only
    split <;> simp

/-- The verdict on a sequence is that of its first check, and then that of the rest. -/
theorem verdict_bind {x : Except ε α} {f : α → Except ε β} {v : Verdict} {l : List Verdict}
    (hx : verdict declared x = v) (hf : ∀ a, x = .ok a → verdict declared (f a) = first l) :
    verdict declared (x >>= f) = first (v :: l) := by
  cases x with
  | ok a =>
    obtain rfl : v = .passed := hx.symm
    exact hf a rfl
  | error e =>
    have hne : v ≠ .passed := by
      rintro rfl
      obtain ⟨a, ha⟩ := verdict_eq_passed.mp hx
      cases ha
    have hfirst : first (v :: l) = v := by
      cases v with
      | passed => exact absurd rfl hne
      | refused | broken => rfl
    rw [hfirst]
    exact hx

end LiberNovus.Checks

import LiberNovus.Foundation.Results

/-! Constraints that a statement has to meet: the statement that would break one is refused. -/

namespace LiberNovus.Constraints

inductive Violation where
  | unique (constraint : String)
  | foreignKey (constraint : String)
  | notNull (column : String)
  deriving DecidableEq, Repr

def enforce (violation : Violation) (p : Prop) [Decidable p] : Except Violation Unit :=
  if p then .ok () else .error violation

theorem enforce_bind_eq_ok {α : Type} {violation : Violation} {p : Prop} [Decidable p]
    {f : Unit → Except Violation α} {a : α} :
    (enforce violation p >>= f) = .ok a ↔ p ∧ f () = .ok a := by
  unfold enforce
  split
  · next hp => exact (and_iff_right hp).symm
  · next hp => exact iff_of_false (by rintro ⟨⟩) fun h => hp h.1

end LiberNovus.Constraints

import LiberNovus.Foundation.Rows

/-! Tables whose rows belong to owners: what one owner sees of a table, and changes that
leave what the other owners see as it is. -/

namespace LiberNovus.Owners

open Rows

variable {ρ β : Type*} [DecidableEq β] (owner : ρ → β)

/-- The rows of an owner. -/
def ownRows (o : β) (rows : List ρ) : List ρ := rows.filter fun r => owner r = o

/-- The rows of everyone but `v` are the same. -/
def SameOthers (v : β) (rows after : List ρ) : Prop :=
  ∀ u, u ≠ v → ownRows owner u after = ownRows owner u rows

variable {owner} {v o : β} {rows after last : List ρ}

/-! ### Reading -/

/-- A query that only rows of the owner answer, needs only these. -/
theorem filter_ownRows {p : ρ → Bool} (h : ∀ r ∈ rows, p r = true → owner r = o) :
    (ownRows owner o rows).filter p = rows.filter p := by
  rw [ownRows, List.filter_filter]
  refine List.filter_congr fun r hr => ?_
  cases hp : p r with
  | false => rfl
  | true => simp [h r hr hp]

theorem find?_ownRows {p : ρ → Bool} (h : ∀ r ∈ rows, p r = true → owner r = o) :
    (ownRows owner o rows).find? p = rows.find? p := by
  rw [← List.head?_filter, ← List.head?_filter, filter_ownRows h]

/-! ### Writing -/

namespace SameOthers

theorem refl (v : β) (rows : List ρ) : SameOthers owner v rows rows := fun _ _ => rfl

theorem trans (h : SameOthers owner v rows after) (h' : SameOthers owner v after last) :
    SameOthers owner v rows last := fun u hu => (h' u hu).trans (h u hu)

theorem append {new : List ρ} (h : ∀ r ∈ new, owner r = v) :
    SameOthers owner v rows (rows ++ new) := by
  intro u hu
  have hnew : new.filter (fun r => owner r = u) = [] := by
    rw [List.filter_eq_nil_iff]
    intro r hr
    simpa [h r hr] using hu.symm
  rw [ownRows, List.filter_append, hnew, List.append_nil]
  rfl

/-- Rewriting rows that are his own. -/
theorem map {g : ρ → ρ} (howner : ∀ r ∈ rows, owner (g r) = owner r)
    (h : ∀ r ∈ rows, owner r ≠ v → g r = r) : SameOthers owner v rows (rows.map g) := by
  intro u hu
  induction rows with
  | nil => rfl
  | cons r rows ih =>
    have ih' := ih (fun r hr => howner r (List.mem_cons_of_mem _ hr))
      fun r hr => h r (List.mem_cons_of_mem _ hr)
    have hr := howner r List.mem_cons_self
    simp only [ownRows, List.map_cons, List.filter_cons, hr] at ih' ⊢
    by_cases hown : owner r = u
    · rw [h r List.mem_cons_self fun he => hu (hown.symm.trans he), ih']
    · simp only [hown, decide_false, Bool.false_eq_true, if_false, ih']

theorem modify {κ : Type*} [DecidableEq κ] [Keyed ρ κ] {k : κ} {f : ρ → ρ}
    (howner : ∀ r, owner (f r) = owner r) (h : ∀ r ∈ rows, key r = k → owner r = v) :
    SameOthers owner v rows (Rows.modify rows k f) := by
  refine map (fun r _ => ?_) fun r hr hne => if_neg fun hk => hne (h r hr hk)
  split
  · exact howner r
  · rfl

end SameOthers

end LiberNovus.Owners

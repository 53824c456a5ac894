import LiberNovus.Foundation.Ordering
import LiberNovus.Prompts.Rendering

/-! The order of the entries of a prompt. The dreams are sorted by time and number, and then
counted.

Proved: dreams of different numbers give one prompt, in whatever order they come, and its
entries are counted from one in the order of time and number. -/

namespace LiberNovus.Prompts

open Rows Session

/-- `(a.created_at, a.id) < (b.created_at, b.id)`. -/
def Earlier (a b : Dream) : Prop :=
  a.createdAt < b.createdAt ∨ a.createdAt = b.createdAt ∧ a.id < b.id

instance : DecidableRel Earlier := fun _ _ => inferInstanceAs (Decidable (_ ∨ _))

instance : Std.Total Dream.Precedes := ⟨fun a b => by unfold Dream.Precedes Time; omega⟩

instance : IsTrans Dream Dream.Precedes := ⟨fun a b c => by unfold Dream.Precedes Time; omega⟩

section Sorted

variable {dreams dreams' : List Dream}

/-- The order tells dreams of different numbers apart. -/
theorem eq_of_precedes (hk : DistinctKeys dreams) {a b : Dream} (ha : a ∈ dreams) (hb : b ∈ dreams)
    (h : a.Precedes b) (h' : b.Precedes a) : a = b := by
  have hid : a.id = b.id := by
    unfold Dream.Precedes Time at h h'
    omega
  exact List.inj_on_of_nodup_map hk ha hb hid

theorem sortDreams_perm (hk : DistinctKeys dreams) (h : dreams'.Perm dreams) :
    sortDreams dreams' = sortDreams dreams :=
  (Ordering.insertionSort_of_perm h.symm fun _ ha _ hb => eq_of_precedes hk ha hb).symm

/-- Sorted dreams of different numbers are strictly ordered. -/
theorem pairwise_sortDreams (hk : DistinctKeys dreams) : (sortDreams dreams).Pairwise Earlier := by
  have hsorted := List.pairwise_insertionSort Dream.Precedes dreams
  have hnodup : ((sortDreams dreams).map Dream.id).Nodup :=
    ((List.perm_insertionSort Dream.Precedes dreams).map Dream.id).nodup_iff.mpr hk
  rw [List.Nodup, List.pairwise_map] at hnodup
  refine (hsorted.and hnodup).imp fun {a b} hab => ?_
  obtain ⟨hle, hne⟩ := hab
  unfold Dream.Precedes Time at hle
  unfold Earlier Time
  omega

end Sorted

/-- The prompt does not depend on the order of the dreams. Its entries are counted from one, and
the `i`-th has the text of the `i`-th dream. -/
theorem buildJungianPrompt_ordered (sessionSummary : SessionSummary)
    (lastActivityAt sessionCreatedAt : Option Time) {dreams : List Dream} (hk : DistinctKeys dreams) :
    (∀ dreams', dreams'.Perm dreams →
      buildJungianPrompt sessionSummary dreams' lastActivityAt sessionCreatedAt =
        buildJungianPrompt sessionSummary dreams lastActivityAt sessionCreatedAt) ∧
    ∃ ordered : List Dream, ordered.Perm dreams ∧ ordered.Pairwise Earlier ∧
      (compileJungianPrompt sessionSummary dreams lastActivityAt sessionCreatedAt).dreams.length =
        ordered.length ∧
      ∀ (i : ℕ) (dream : Dream), ordered[i]? = some dream →
        (compileJungianPrompt sessionSummary dreams lastActivityAt sessionCreatedAt).dreams[i]? =
          some ⟨i + 1, dream.text, formatDatetime (some dream.createdAt)⟩ := by
  refine ⟨fun dreams' h => ?_, sortDreams dreams, List.perm_insertionSort _ _,
    pairwise_sortDreams hk, by simp [compileJungianPrompt], fun i dream hi => ?_⟩
  · rw [buildJungianPrompt, buildJungianPrompt, compileJungianPrompt, compileJungianPrompt,
      sortDreams_perm hk h]
  · simp [compileJungianPrompt, hi]

/-- Two dreams of one moment, in both orders. -/
theorem buildJungianPrompt_swapped :
    let summary : SessionSummary := ⟨⟨2, [], [], none⟩, 9, 1, 7, 0⟩
    buildJungianPrompt summary [⟨2, 7, "a bridge", 0, 1⟩, ⟨1, 7, "a river", 0, 1⟩] none none =
      buildJungianPrompt summary [⟨1, 7, "a river", 0, 1⟩, ⟨2, 7, "a bridge", 0, 1⟩] none none :=
  (buildJungianPrompt_ordered _ none none (by simp [DistinctKeys, key])).1 _ (List.Perm.swap _ _ _)

end LiberNovus.Prompts

import Mathlib.Data.List.Infix

/-! The first occurrence of a pattern in a sequence: what comes before it and what comes
behind it. -/

namespace LiberNovus.Search

variable {α : Type} [DecidableEq α]

/-- The two sides of the first occurrence of `sep`. -/
def cut (sep : List α) : List α → Option (List α × List α)
  | [] => if sep.isPrefixOf [] then some ([], []) else none
  | c :: t =>
    if sep.isPrefixOf (c :: t) then some ([], (c :: t).drop sep.length)
    else (cut sep t).map fun (before, after) => (c :: before, after)

variable {sep a b t x y : List α}

theorem prefix_split (h : sep.isPrefixOf t = true) : t = sep ++ t.drop sep.length := by
  obtain ⟨r, rfl⟩ := List.isPrefixOf_iff_prefix.mp h
  rw [List.drop_left]

theorem cut_nil (sep : List α) :
    cut sep [] = if sep.isPrefixOf [] then some ([], []) else none := rfl

theorem cut_of_isPrefix {c : α} (h : sep <+: c :: t) :
    cut sep (c :: t) = some ([], (c :: t).drop sep.length) :=
  if_pos (List.isPrefixOf_iff_prefix.mpr h)

theorem cut_of_prefix (sep t : List α) : cut sep (sep ++ t) = some ([], t) := by
  have h : sep <+: sep ++ t := List.prefix_append _ _
  cases hs : sep ++ t with
  | nil =>
    obtain ⟨rfl, rfl⟩ := List.append_eq_nil_iff.mp hs
    rfl
  | cons c r =>
    rw [hs] at h
    rw [cut_of_isPrefix h, ← hs, List.drop_left]

theorem cut_self (sep : List α) : cut sep sep = some ([], []) := by
  have hcut := cut_of_prefix sep []
  rwa [List.append_nil] at hcut

theorem cut_cons {c : α} (h : ¬ sep <+: c :: t) :
    cut sep (c :: t) = (cut sep t).map fun (before, after) => (c :: before, after) :=
  if_neg fun hp => h (List.isPrefixOf_iff_prefix.mp hp)

/-- The text is put together again around the pattern, which does not occur before. -/
theorem cut_eq_some (h : cut sep t = some (x, y)) : t = x ++ (sep ++ y) := by
  induction t generalizing x with
  | nil =>
    rw [cut_nil] at h
    split at h
    · next hp =>
      cases h
      simpa using prefix_split hp
    · cases h
  | cons c t ih =>
    by_cases hp : sep <+: c :: t
    · rw [cut_of_isPrefix hp] at h
      cases h
      exact prefix_split (List.isPrefixOf_iff_prefix.mpr hp)
    · rw [cut_cons hp] at h
      obtain ⟨⟨x', y'⟩, hcut, h⟩ := Option.map_eq_some_iff.mp h
      cases h
      rw [List.cons_append, ← ih hcut]

theorem cut_eq_none (h : cut sep t = none) : ¬ sep <:+: t := by
  induction t with
  | nil =>
    intro hin
    rw [List.infix_nil.mp hin, cut_nil] at h
    exact absurd h (by simp)
  | cons c t ih =>
    by_cases hp : sep <+: c :: t
    · rw [cut_of_isPrefix hp] at h
      cases h
    · rw [cut_cons hp, Option.map_eq_none_iff] at h
      rw [List.infix_cons_iff]
      exact fun hin => hin.elim hp (ih h)

theorem cut_isSome_iff : (cut sep t).isSome = true ↔ sep <:+: t := by
  cases h : cut sep t with
  | none => simpa using cut_eq_none h
  | some p => simpa using ⟨p.1, p.2, by rw [List.append_assoc]; exact (cut_eq_some h).symm⟩

/-- No other occurrence comes first. -/
theorem cut_le (h : cut sep t = some (x, y)) (ht : t = a ++ (sep ++ b)) : x.length ≤ a.length := by
  induction t generalizing x a with
  | nil =>
    rw [cut_nil] at h
    split at h
    · cases h
      exact Nat.zero_le _
    · cases h
  | cons c t ih =>
    by_cases hp : sep <+: c :: t
    · rw [cut_of_isPrefix hp] at h
      cases h
      exact Nat.zero_le _
    · rw [cut_cons hp] at h
      obtain ⟨⟨x', y'⟩, hcut, h⟩ := Option.map_eq_some_iff.mp h
      cases h
      cases a with
      | nil => exact absurd ⟨b, ht.symm⟩ hp
      | cons d a =>
        obtain ⟨-, ht⟩ := List.cons_eq_cons.mp ht
        have := ih hcut ht
        simpa using this

theorem not_infix_of_cut (hsep : sep ≠ []) (h : cut sep t = some (x, y)) : ¬ sep <:+: x := by
  rintro ⟨a, b, rfl⟩
  have hlen : 0 < sep.length := List.length_pos_iff.mpr hsep
  have hle := cut_le h (a := a) (b := b ++ (sep ++ y)) (by simpa using cut_eq_some h)
  simp only [List.length_append] at hle
  omega

/-- What is found in a text is found when more text follows. -/
theorem cut_append (h : cut sep t = some (x, y)) (r : List α) :
    cut sep (t ++ r) = some (x, y ++ r) := by
  induction t generalizing x with
  | nil =>
    rw [cut_nil] at h
    split at h
    · next hp =>
      cases h
      have hnil : sep = [] := by simpa using hp
      subst hnil
      exact cut_of_prefix [] r
    · cases h
  | cons c t ih =>
    by_cases hp : sep <+: c :: t
    · have hsplit := prefix_split (List.isPrefixOf_iff_prefix.mpr hp)
      rw [cut_of_isPrefix hp] at h
      cases h
      nth_rewrite 1 [hsplit]
      rw [List.append_assoc]
      exact cut_of_prefix _ _
    · have hp' : ¬ sep <+: c :: (t ++ r) := by
        intro hpre
        rw [cut_cons hp] at h
        obtain ⟨⟨x', y'⟩, hcut, -⟩ := Option.map_eq_some_iff.mp h
        have hlen : sep.length ≤ (c :: t).length := by
          have := congrArg List.length (cut_eq_some hcut)
          simp only [List.length_append, List.length_cons] at this ⊢
          omega
        exact hp (List.prefix_of_prefix_length_le hpre (List.prefix_append (c :: t) r) hlen)
      rw [cut_cons hp] at h
      obtain ⟨⟨x', y'⟩, hcut, h⟩ := Option.map_eq_some_iff.mp h
      cases h
      rw [List.cons_append, cut_cons hp', ih hcut]
      rfl

omit [DecidableEq α] in
/-- Text without the first character of the pattern is passed over. -/
theorem infix_cons_append_iff {c : α} (h : c ∉ a) : c :: sep <:+: a ++ t ↔ c :: sep <:+: t := by
  induction a with
  | nil => rfl
  | cons d a ih =>
    rw [List.mem_cons, not_or] at h
    rw [List.cons_append, List.infix_cons_iff, ih h.2, or_iff_right]
    exact fun hp => h.1 (List.cons_prefix_cons.mp hp).1

/-- A character that the pattern does not have separates: what comes before it is searched on
its own. -/
theorem cut_skip {c : α} (hsep : sep ≠ []) (hc : c ∉ sep) (h : ¬ sep <:+: a) (b : List α) :
    cut sep (a ++ c :: b) = (cut sep b).map fun (before, after) => (a ++ c :: before, after) := by
  have hstart : ∀ a : List α, ¬ sep <+: a → ¬ sep <+: a ++ c :: b := by
    rintro a ha ⟨r, hr⟩
    rcases List.append_eq_append_iff.mp hr with ⟨a', ha', -⟩ | ⟨c', hsplit, hcb⟩
    · exact ha ⟨a', ha'.symm⟩
    · cases c' with
      | nil => exact ha ⟨[], by rw [hsplit]; simp⟩
      | cons d c' =>
        obtain ⟨rfl, -⟩ := List.cons_eq_cons.mp hcb
        exact hc (by rw [hsplit]; simp)
  induction a with
  | nil =>
    have hp : ¬ sep <+: c :: b := hstart [] fun hp => hsep (List.prefix_nil.mp hp)
    rw [List.nil_append, cut_cons hp]
    rfl
  | cons d a ih =>
    rw [List.infix_cons_iff, not_or] at h
    have hp : ¬ sep <+: d :: (a ++ c :: b) := hstart (d :: a) h.1
    rw [List.cons_append, cut_cons hp, ih h.2, Option.map_map]
    rfl

end LiberNovus.Search

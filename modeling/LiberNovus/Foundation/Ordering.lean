import Mathlib.Data.List.Perm.Subperm
import Mathlib.Data.List.Sort

/-! `ORDER BY` as a stable sort: which row comes first, and which comes last; the rows that
`LIMIT` keeps, and whether a new one is among them; and rows grouped by a key. -/

namespace LiberNovus.Ordering

variable {α : Type*} {r : α → α → Prop} [DecidableRel r] [Std.Total r] [IsTrans α r]
  {l : List α} {x y : α}

/-- Rows that the order tells apart are sorted in the same way in whatever order they come. -/
theorem insertionSort_of_perm {l' : List α} (h : l.Perm l')
    (hanti : ∀ a ∈ l, ∀ b ∈ l, r a b → r b a → a = b) : l.insertionSort r = l'.insertionSort r := by
  have hp : (l.insertionSort r).Perm (l'.insertionSort r) :=
    (List.perm_insertionSort r l).trans (h.trans (List.perm_insertionSort r l').symm)
  refine hp.eq_of_pairwise ?_ (List.pairwise_insertionSort r l) (List.pairwise_insertionSort r l')
  intro a b ha hb
  exact hanti a ((List.mem_insertionSort r).mp ha) b (h.mem_iff.mpr ((List.mem_insertionSort r).mp hb))

/-- A row that is strictly before all others comes first. -/
theorem head?_insertionSort (hx : x ∈ l) (h : ∀ y ∈ l, y ≠ x → ¬ r y x) :
    (l.insertionSort r).head? = some x := by
  have hm : x ∈ l.insertionSort r := (List.mem_insertionSort r).mpr hx
  cases hs : l.insertionSort r with
  | nil => rw [hs] at hm; cases hm
  | cons a t =>
    have hp := List.pairwise_insertionSort r l
    rw [hs] at hm hp
    by_contra hne
    have ha : a ≠ x := fun he => hne (by rw [he]; rfl)
    have hal : a ∈ l := (List.mem_insertionSort r).mp (hs ▸ List.mem_cons_self)
    have hxt : x ∈ t := (List.mem_cons.mp hm).resolve_left (Ne.symm ha)
    exact h a hal ha (List.rel_of_pairwise_cons hp hxt)

/-- A row that is strictly after all others comes last. -/
theorem getLast?_insertionSort (hx : x ∈ l) (h : ∀ y ∈ l, y ≠ x → ¬ r x y) :
    (l.insertionSort r).getLast? = some x := by
  have hm : x ∈ l.insertionSort r := (List.mem_insertionSort r).mpr hx
  rcases List.eq_nil_or_concat (l.insertionSort r) with hs | ⟨t, a, hs⟩
  · rw [hs] at hm; cases hm
  · have hp := List.pairwise_insertionSort r l
    rw [hs] at hm hp
    rw [hs, List.concat_eq_append, List.getLast?_concat]
    by_contra hne
    have ha : a ≠ x := fun he => hne (by rw [he])
    have hal : a ∈ l := (List.mem_insertionSort r).mp (by rw [hs]; simp)
    have hxt : x ∈ t := by simpa [Ne.symm ha] using hm
    rw [List.concat_eq_append, List.pairwise_append] at hp
    exact h a hal ha (hp.2.2 x hxt a (by simp))

omit [DecidableRel r] [Std.Total r] [IsTrans α r] in
/-- What comes after the first `n` rows of a sorted list is before none of them. -/
theorem not_rel_take (hr : ∀ a b, r a b → ¬ r b a) (h : l.Pairwise r) {n : ℕ} {a b : α}
    (ha : a ∈ l.take n) (hb : b ∈ l) (hb' : b ∉ l.take n) : ¬ r b a := by
  rw [← List.take_append_drop n l, List.mem_append] at hb
  rw [← List.take_append_drop n l, List.pairwise_append] at h
  exact hr a b (h.2.2 a ha b (hb.resolve_left hb'))

omit [Std.Total r] [IsTrans α r] in
/-- The sort is stable: a row at the end of the scan that comes first is strictly before
the others. -/
theorem not_rel_of_head? (hx : x ∉ l) (h : ((l ++ [x]).insertionSort r).head? = some x)
    (hy : y ∈ l) : ¬ r y x := by
  intro hr
  have hsub : [y, x].Sublist ((l ++ [x]).insertionSort r) :=
    List.pair_sublist_insertionSort hr
      ((List.singleton_sublist.mpr hy).append (List.Sublist.refl [x]))
  obtain ⟨t, ht⟩ := List.head?_eq_some_iff.mp h
  have hp : (x :: t).Perm (x :: l) :=
    ht ▸ (List.perm_insertionSort r _).trans (List.perm_append_singleton x l)
  rw [ht] at hsub
  cases hsub with
  | cons_cons => exact hx hy
  | cons _ hs =>
    have hxt : x ∈ t := hs.subset (by simp)
    exact hx (hp.cons_inv.subset hxt)

/-- No row is after the one that comes last. -/
theorem rel_of_getLast? (h : (l.insertionSort r).getLast? = some x) (hy : y ∈ l) : r y x := by
  obtain ⟨t, ht⟩ := List.getLast?_eq_some_iff.mp h
  have hp := List.pairwise_insertionSort r l
  have hm : y ∈ l.insertionSort r := (List.mem_insertionSort r).mpr hy
  rw [ht] at hp hm
  rcases List.mem_append.mp hm with hm | hm
  · exact (List.pairwise_append.mp hp).2.2 y hm x (List.mem_singleton_self x)
  · rw [List.mem_singleton.mp hm]
    exact (Std.Total.total x x).elim id id

omit [Std.Total r] [IsTrans α r] in
/-- The sort is stable: a row that the others precede, in the order and in the scan, comes
last. -/
theorem getLast?_insertionSort_of_scan (hn : l.Nodup) (hx : x ∈ l)
    (h : ∀ y ∈ l, y ≠ x → r y x ∧ [y, x].Sublist l) : (l.insertionSort r).getLast? = some x := by
  have hm : x ∈ l.insertionSort r := (List.mem_insertionSort r).mpr hx
  rcases List.eq_nil_or_concat (l.insertionSort r) with hs | ⟨t, a, hs⟩
  · rw [hs] at hm; cases hm
  · rw [List.concat_eq_append] at hs
    rw [hs, List.getLast?_concat]
    by_contra hne
    have ha : a ≠ x := fun he => hne (by rw [he])
    have hal : a ∈ l := (List.mem_insertionSort r).mp (by rw [hs]; simp)
    obtain ⟨hr, hsub⟩ := h a hal ha
    have hback := (List.pair_sublist_insertionSort hr hsub).reverse
    have hnd : (t ++ [a]).Nodup := hs ▸ ((List.perm_insertionSort r l).nodup_iff.mpr hn)
    rw [hs, List.reverse_append] at hback
    -- read backwards, `a` comes first and is met again after `x`
    cases hback with
    | cons_cons => exact ha rfl
    | cons _ hsub' =>
      have hat : a ∈ t := List.mem_reverse.mp (hsub'.subset (by simp))
      exact (List.nodup_append.mp hnd).2.2 a hat a (List.mem_singleton_self a) rfl

/-! ### The first rows -/

omit [DecidableRel r] [Std.Total r] [IsTrans α r] in
/-- `chosen` are the first `n` rows of `l` in the order. -/
structure FirstRows (r : α → α → Prop) (n : ℕ) (l chosen : List α) : Prop where
  subset : chosen ⊆ l
  length : chosen.length = min n l.length
  sorted : chosen.Pairwise r
  before : ∀ x ∈ l, x ∉ chosen → ∀ y ∈ chosen, r y x

/-- `ORDER BY … LIMIT n`. -/
theorem firstRows_take (n : ℕ) (l : List α) :
    FirstRows r n l ((l.insertionSort r).take n) where
  subset x hx := (List.mem_insertionSort r).mp (List.mem_of_mem_take hx)
  length := by rw [List.length_take, List.length_insertionSort]
  sorted := (List.pairwise_insertionSort r l).sublist (List.take_sublist n _)
  before x hx hn y hy := by
    have hp := List.pairwise_insertionSort r l
    rw [← List.take_append_drop n (l.insertionSort r), List.pairwise_append] at hp
    refine hp.2.2 y hy x ?_
    have hm := (List.mem_insertionSort r).mpr hx
    rw [← List.take_append_drop n (l.insertionSort r), List.mem_append] at hm
    exact hm.resolve_left hn

omit [DecidableRel r] [Std.Total r] [IsTrans α r] in
/-- A row that is left out has all of the first `n` rows before it. -/
theorem FirstRows.length_of_not_mem {n : ℕ} {chosen : List α} (h : FirstRows r n l chosen)
    (hn : chosen.Nodup) (hx : x ∈ l) (hout : x ∉ chosen) : chosen.length = n := by
  have hlt : chosen.length < l.length := by
    have hsub : (x :: chosen).Subperm l :=
      List.subperm_of_subset (List.nodup_cons.mpr ⟨hout, hn⟩) (List.cons_subset.mpr ⟨hx, h.subset⟩)
    have := hsub.length_le
    rw [List.length_cons] at this
    omega
  have := h.length
  omega

/-- A new row is among the first `n` exactly when fewer rows come before it. -/
theorem mem_take_insertionSort (hx : x ∉ l) (hanti : ∀ y ∈ l, r y x → ¬ r x y) (n : ℕ) :
    x ∈ ((l ++ [x]).insertionSort r).take n ↔ l.countP (fun y => r y x) < n := by
  have hp : ((l ++ [x]).insertionSort r).Perm (x :: l) :=
    (List.perm_insertionSort r _).trans (List.perm_append_singleton x l)
  obtain ⟨before, after, hs⟩ := List.append_of_mem (hp.mem_iff.mpr List.mem_cons_self)
  have hsorted := List.pairwise_insertionSort r (l ++ [x])
  rw [hs, List.pairwise_append, List.pairwise_cons] at hsorted
  obtain ⟨-, ⟨hafter, -⟩, hbefore⟩ := hsorted
  have hl : (before ++ after).Perm l := by
    rw [hs] at hp
    exact (List.perm_middle.symm.trans hp).cons_inv
  have hcount : l.countP (fun y => r y x) = before.length := by
    rw [← hl.countP_eq, List.countP_append, List.countP_eq_length.mpr, List.countP_eq_zero.mpr,
      Nat.add_zero]
    · intro y hy
      have hyl : y ∈ l := hl.subset (List.mem_append_right _ hy)
      simpa using fun h => hanti y hyl h (hafter y hy)
    · intro y hy
      simpa using hbefore y hy x List.mem_cons_self
  have hxb : x ∉ before := fun h => hx (hl.subset (List.mem_append_left _ h))
  rw [hs, hcount, List.take_append, List.mem_append]
  constructor
  · rintro (h | h)
    · exact absurd (List.mem_of_mem_take h) hxb
    · by_contra hn
      rw [Nat.sub_eq_zero_of_le (Nat.not_lt.mp hn)] at h
      cases h
  · intro h
    obtain ⟨k, hk⟩ := Nat.exists_eq_succ_of_ne_zero (Nat.sub_ne_zero_of_lt h)
    rw [hk, List.take_succ_cons]
    exact .inr List.mem_cons_self

/-! ### Groups -/

/-- The rows by key, in the order in which the keys come up. -/
def grouped {κ : Type*} [DecidableEq κ] (f : α → κ) (l : List α) : List (κ × List α) :=
  (l.map f).eraseDups.map fun k => (k, l.filter fun x => f x = k)

omit [DecidableRel r] [Std.Total r] [IsTrans α r] in
theorem mem_grouped {κ : Type*} [DecidableEq κ] {f : α → κ} {k : κ} {xs : List α} :
    (k, xs) ∈ grouped f l ↔ xs = l.filter (fun x => f x = k) ∧ ∃ x ∈ l, f x = k := by
  simp only [grouped, List.mem_map, List.mem_eraseDups, Prod.mk.injEq]
  constructor
  · rintro ⟨_, hx, rfl, rfl⟩
    exact ⟨rfl, hx⟩
  · rintro ⟨rfl, hx⟩
    exact ⟨k, hx, rfl, rfl⟩

/-! ### Numbers -/

/-- Numbers from zero on are continued by their count alone. -/
theorem perm_range_succ {l : List ℕ} {n i : ℕ} (hl : l.Perm (List.range n)) :
    (l ++ [i]).Perm (List.range (n + 1)) ↔ i = n := by
  rw [List.range_succ]
  constructor
  · intro h
    have h' := (List.perm_append_left_iff (List.range n)).mp ((hl.symm.append_right [i]).trans h)
    simpa using h'
  · rintro rfl
    exact hl.append_right [i]

/-- Without one of them they are such numbers when it was the last. -/
theorem perm_range_of_succ {l : List ℕ} {n i : ℕ} (h : (l ++ [i]).Perm (List.range (n + 1))) :
    l.Perm (List.range n) ↔ i = n := by
  refine ⟨fun hl => (perm_range_succ hl).mp h, ?_⟩
  rintro rfl
  rw [List.range_succ] at h
  exact (List.perm_append_right_iff [i]).mp h

end LiberNovus.Ordering

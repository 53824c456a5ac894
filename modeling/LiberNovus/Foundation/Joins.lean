import Mathlib.Data.List.Dedup
import Mathlib.Data.List.ReduceOption
import LiberNovus.Foundation.Ordering

/-! Outer joins and the aggregates over them. A row without a partner stays, with a null in the
partner's place, and a row with several partners is repeated; `count(DISTINCT …)` skips the
nulls and undoes the repetition, whatever is joined on later. -/

namespace LiberNovus.Joins

variable {α β γ κ : Type*}

/-! ### The joined rows -/

section Join

variable (on : α → β → Prop) [∀ a, DecidablePred (on a)]

/-- What a row is joined with: its partners, or null. -/
def partners (r : List β) (a : α) : List (Option β) :=
  match r.filter fun b => on a b with
  | [] => [none]
  | b :: bs => (b :: bs).map some

/-- `LEFT OUTER JOIN … ON`. -/
def leftJoin (l : List α) (r : List β) : List (α × Option β) :=
  l.flatMap fun a => (partners on r a).map fun b => (a, b)

end Join

variable {on : α → β → Prop} [∀ a, DecidablePred (on a)] {l : List α} {r : List β}

theorem some_mem_partners {a : α} {b : β} : some b ∈ partners on r a ↔ b ∈ r ∧ on a b := by
  have hfilter : b ∈ (r.filter fun b => on a b) ↔ b ∈ r ∧ on a b := by simp
  rw [← hfilter, partners]
  split
  · next h => simp [h]
  · next h => simp [h]

theorem none_mem_partners {a : α} : none ∈ partners on r a ↔ ∀ b ∈ r, ¬ on a b := by
  have hfilter : (r.filter fun b => on a b) = [] ↔ ∀ b ∈ r, ¬ on a b := by simp
  rw [← hfilter, partners]
  split
  · next h => simp [h]
  · next h => simp [h]

variable (on r) in
theorem exists_mem_partners (a : α) : ∃ b, b ∈ partners on r a := by
  rw [partners]
  split
  · exact ⟨none, List.mem_singleton_self _⟩
  · exact ⟨_, List.mem_cons_self⟩

theorem mem_leftJoin {a : α} {b : Option β} :
    (a, b) ∈ leftJoin on l r ↔ a ∈ l ∧ b ∈ partners on r a := by
  simp only [leftJoin, List.mem_flatMap, List.mem_map, Prod.mk.injEq]
  constructor
  · rintro ⟨_, ha, _, hb, rfl, rfl⟩
    exact ⟨ha, hb⟩
  · rintro ⟨ha, hb⟩
    exact ⟨a, ha, b, hb, rfl, rfl⟩

/-- Every row stays, and none comes in. -/
theorem exists_fst_leftJoin {P : α → Prop} :
    (∃ x ∈ leftJoin on l r, P x.1) ↔ ∃ a ∈ l, P a := by
  constructor
  · rintro ⟨⟨a, b⟩, hx, hP⟩
    exact ⟨a, (mem_leftJoin.mp hx).1, hP⟩
  · rintro ⟨a, ha, hP⟩
    obtain ⟨b, hb⟩ := exists_mem_partners on r a
    exact ⟨(a, b), mem_leftJoin.mpr ⟨ha, hb⟩, hP⟩

/-- The partners that are met with the rows of a kind. -/
theorem exists_snd_leftJoin {P : α → Prop} {f : β → κ} {k : κ} :
    (∃ x ∈ leftJoin on l r, P x.1 ∧ x.2.map f = some k) ↔
      ∃ b ∈ r, (∃ a ∈ l, on a b ∧ P a) ∧ f b = k := by
  constructor
  · rintro ⟨⟨a, x⟩, hx, hP, hf⟩
    obtain ⟨b, rfl, rfl⟩ := Option.map_eq_some_iff.mp hf
    obtain ⟨ha, hb⟩ := mem_leftJoin.mp hx
    obtain ⟨hb, hon⟩ := some_mem_partners.mp hb
    exact ⟨b, hb, ⟨a, ha, hon, hP⟩, rfl⟩
  · rintro ⟨b, hb, ⟨a, ha, hon, hP⟩, rfl⟩
    exact ⟨(a, some b), mem_leftJoin.mpr ⟨ha, some_mem_partners.mpr ⟨hb, hon⟩⟩, hP, rfl⟩

/-- The partners of the rows with one key are those that name it. -/
theorem exists_partner {ι : Type*} [DecidableEq ι] {id : α → ι} {owner : β → ι} {f : β → κ} {i : ι}
    {k : κ} (hi : ∃ a ∈ l, id a = i) :
    (∃ x ∈ leftJoin (fun a b => owner b = id a) l r, id x.1 = i ∧ x.2.map f = some k) ↔
      ∃ b ∈ r, owner b = i ∧ f b = k := by
  obtain ⟨a, ha, rfl⟩ := hi
  rw [exists_snd_leftJoin (P := fun x => id x = id a)]
  constructor
  · rintro ⟨b, hb, ⟨a', -, hon, hid⟩, hf⟩
    exact ⟨b, hb, hon.trans hid, hf⟩
  · rintro ⟨b, hb, hon, hf⟩
    exact ⟨b, hb, ⟨a, ha, hon, rfl⟩, hf⟩

/-! ### Aggregates -/

section Aggregates

variable [DecidableEq κ]

/-- `count(DISTINCT …)`. -/
def countDistinct (column : List (Option κ)) : ℕ := column.reduceOption.dedup.length

/-- The distinct values of a column are counted by any list that names each of them once. -/
theorem countDistinct_eq {column : List (Option κ)} {values : List κ} (hn : values.Nodup)
    (h : ∀ k, some k ∈ column ↔ k ∈ values) : countDistinct column = values.length := by
  refine List.Perm.length_eq ((List.perm_ext_iff_of_nodup (List.nodup_dedup _) hn).mpr fun k => ?_)
  rw [List.mem_dedup, List.reduceOption_mem_iff, h]

theorem nodup_eraseDups (l : List κ) : l.eraseDups.Nodup := by
  induction hn : l.length using Nat.strongRecOn generalizing l with
  | _ n ih =>
    cases l with
    | nil => exact List.nodup_nil
    | cons k l =>
      rw [List.eraseDups_cons, List.nodup_cons, List.mem_eraseDups]
      refine ⟨by simp, ih _ ?_ _ rfl⟩
      have := List.length_filter_le (fun k' => !k' == k) l
      rw [List.length_cons] at hn
      omega

/-- `list(dict.fromkeys(…))`. -/
def fromkeys (l : List κ) : List κ := l.eraseDups

theorem nodup_fromkeys (l : List κ) : (fromkeys l).Nodup := nodup_eraseDups l

theorem mem_fromkeys {l : List κ} {k : κ} : k ∈ fromkeys l ↔ k ∈ l := List.mem_eraseDups

/-- `GROUP BY` has one group for each key. -/
theorem nodup_keys (f : α → κ) (l : List α) : ((Ordering.grouped f l).map Prod.fst).Nodup := by
  rw [Ordering.grouped, List.map_map]
  exact (List.map_id _).symm ▸ nodup_eraseDups _

theorem mem_keys {f : α → κ} {l : List α} {k : κ} :
    k ∈ (Ordering.grouped f l).map Prod.fst ↔ ∃ x ∈ l, f x = k := by
  simp only [Ordering.grouped, List.map_map, List.mem_map, List.mem_eraseDups]
  constructor
  · rintro ⟨_, h, rfl⟩
    exact h
  · intro h
    exact ⟨k, h, rfl⟩

/-- A key that no other row has. -/
theorem filter_of_nodup {f : α → κ} {l : List α} {a : α} (h : (l.map f).Nodup) (ha : a ∈ l) :
    l.filter (fun x => f x = f a) = [a] := by
  induction l with
  | nil => cases ha
  | cons b l ih =>
    rw [List.map_cons, List.nodup_cons] at h
    rw [List.filter_cons]
    rcases List.mem_cons.mp ha with rfl | ha
    · have hnone : l.filter (fun x => f x = f a) = [] := List.filter_eq_nil_iff.mpr fun x hx => by
        simpa using fun he : f x = f a => h.1 (he ▸ List.mem_map_of_mem hx)
      rw [if_pos (by simp), hnone]
    · have hne : ¬ f b = f a := fun he => h.1 (he ▸ List.mem_map_of_mem ha)
      rw [if_neg (by simpa using hne), ih h.2 ha]

theorem find?_of_nodup {f : α → κ} {l : List α} {a : α} (h : (l.map f).Nodup) (ha : a ∈ l) :
    (l.find? fun x => f x = f a) = some a := by
  rw [← List.head?_filter, filter_of_nodup h ha, List.head?_cons]

/-- Rows with keys of their own are groups of one. -/
theorem grouped_of_nodup {f : α → κ} {l : List α} (h : (l.map f).Nodup) :
    Ordering.grouped f l = l.map fun a => (f a, [a]) := by
  have hkeys : (l.map f).eraseDups = l.map f := by
    induction l with
    | nil => rfl
    | cons b l ih =>
      rw [List.map_cons, List.nodup_cons] at h
      rw [List.map_cons, List.eraseDups_cons, List.filter_eq_self.mpr fun k hk => ?_, ih h.2]
      simpa using fun he : k = f b => h.1 (he ▸ hk)
  rw [Ordering.grouped, hkeys, List.map_map]
  refine List.map_congr_left fun a ha => ?_
  rw [Function.comp_apply, filter_of_nodup h ha]

/-- The rows with one key make one group. -/
theorem grouped_of_forall {f : α → κ} {l : List α} {k : κ} (h : ∀ x ∈ l, f x = k) :
    Ordering.grouped f l = if l = [] then [] else [(k, l)] := by
  cases l with
  | nil => rfl
  | cons a l =>
    have hkeys : (l.map f).filter (fun k' => !k' == k) = [] := by
      simpa using fun x hx => h x (List.mem_cons_of_mem a hx)
    have hrows : (a :: l).filter (fun x => f x = k) = a :: l :=
      List.filter_eq_self.mpr fun x hx => decide_eq_true (h x hx)
    rw [Ordering.grouped, List.map_cons, List.eraseDups_cons, h a List.mem_cons_self, hkeys,
      List.eraseDups_nil, List.map_singleton, hrows, if_neg (List.cons_ne_nil a l)]

end Aggregates

end LiberNovus.Joins

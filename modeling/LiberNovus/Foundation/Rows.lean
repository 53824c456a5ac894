import Mathlib.Data.List.Nodup
import Mathlib.Data.List.Perm.Basic

/-! Tables as lists of rows that carry their primary key: reading a row by key,
changing it in place, and the facts about both when no key occurs twice. -/

namespace LiberNovus.Rows

/-- Rows with a primary key. -/
class Keyed (ρ : Type*) (κ : outParam (Type*)) where
  key : ρ → κ

export Keyed (key)

variable {ρ κ : Type*} [DecidableEq κ] [Keyed ρ κ]

/-- The row with primary key `k`. -/
def get (rows : List ρ) (k : κ) : Option ρ := rows.find? fun r => key r = k

/-- `UPDATE … WHERE id = k`. -/
def modify (rows : List ρ) (k : κ) (f : ρ → ρ) : List ρ :=
  rows.map fun r => if key r = k then f r else r

/-- No primary key occurs twice. -/
def DistinctKeys (rows : List ρ) : Prop := (rows.map key).Nodup

theorem key_of_get {rows : List ρ} {k : κ} {r : ρ} (h : get rows k = some r) : key r = k := by
  simpa using List.find?_some h

theorem mem_of_get {rows : List ρ} {k : κ} {r : ρ} (h : get rows k = some r) : r ∈ rows :=
  List.mem_of_find?_eq_some h

theorem get_eq_none {rows : List ρ} {k : κ} : get rows k = none ↔ k ∉ rows.map key := by
  simp [get, List.find?_eq_none]

theorem get_of_mem {rows : List ρ} (hu : DistinctKeys rows) {r : ρ} (h : r ∈ rows) :
    get rows (key r) = some r := by
  cases hg : get rows (key r) with
  | none => exact absurd (List.mem_map_of_mem h) (get_eq_none.mp hg)
  | some r' =>
    rw [List.inj_on_of_nodup_map hu (mem_of_get hg) h (key_of_get hg)]

theorem get_eq_some {rows : List ρ} (hu : DistinctKeys rows) {k : κ} {r : ρ} :
    get rows k = some r ↔ r ∈ rows ∧ key r = k := by
  constructor
  · exact fun h => ⟨mem_of_get h, key_of_get h⟩
  · rintro ⟨hr, rfl⟩
    exact get_of_mem hu hr

theorem get_perm {rows rows' : List ρ} (hu : DistinctKeys rows) (h : rows.Perm rows') (k : κ) :
    get rows k = get rows' k := by
  have hu' : DistinctKeys rows' := (h.map key).nodup_iff.mp hu
  refine Option.ext fun r => ?_
  rw [get_eq_some hu, get_eq_some hu', h.mem_iff]

omit [DecidableEq κ] in
@[simp] theorem distinctKeys_nil : DistinctKeys ([] : List ρ) := List.nodup_nil

@[simp] theorem get_nil (k : κ) : get ([] : List ρ) k = none := rfl

theorem get_singleton (r : ρ) (k : κ) : get [r] k = if key r = k then some r else none := by
  by_cases h : key r = k <;> simp [get, h]

theorem get_append (rows rows' : List ρ) (k : κ) :
    get (rows ++ rows') k = (get rows k).or (get rows' k) := List.find?_append

theorem get_map {f : ρ → ρ} (hf : ∀ r, key (f r) = key r) (rows : List ρ) (k : κ) :
    get (rows.map f) k = (get rows k).map f := by
  induction rows with
  | nil => rfl
  | cons r rows ih =>
    simp only [get, List.map_cons, List.find?_cons, hf] at ih ⊢
    split
    · rfl
    · exact ih

theorem get_map_of_key {f : ρ → ρ} (hf : ∀ r, key (f r) = key r) {rows : List ρ} {k : κ}
    (h : ∀ r, key r = k → f r = r) : get (rows.map f) k = get rows k := by
  rw [get_map hf]
  cases hg : get rows k with
  | none => rfl
  | some r => rw [Option.map_some, h r (key_of_get hg)]

omit [DecidableEq κ] in
theorem keys_map {f : ρ → ρ} (hf : ∀ r, key (f r) = key r) (rows : List ρ) :
    (rows.map f).map key = rows.map key := by
  simp [List.map_map, Function.comp_def, hf]

omit [DecidableEq κ] in
theorem distinctKeys_map {f : ρ → ρ} (hf : ∀ r, key (f r) = key r) {rows : List ρ} :
    DistinctKeys (rows.map f) ↔ DistinctKeys rows := by
  simp only [DistinctKeys, keys_map hf]

theorem distinctKeys_append_singleton {rows : List ρ} {r : ρ} (hu : DistinctKeys rows)
    (hr : get rows (key r) = none) : DistinctKeys (rows ++ [r]) := by
  rw [get_eq_none] at hr
  simpa [DistinctKeys, List.nodup_append] using ⟨hu, fun a ha he => hr (he ▸ List.mem_map_of_mem ha)⟩

section Modify

variable {k : κ} {f : ρ → ρ} (hf : ∀ r, key (f r) = key r)
include hf

theorem key_ite (r : ρ) : key (if key r = k then f r else r) = key r := by
  split <;> simp [hf]

theorem get_modify (rows : List ρ) (k' : κ) :
    get (modify rows k f) k' = if k' = k then (get rows k).map f else get rows k' := by
  split
  · next h =>
    subst h
    rw [modify, get_map (key_ite hf)]
    cases hg : get rows k' with
    | none => rfl
    | some r => simp [key_of_get hg]
  · next h => exact get_map_of_key (key_ite hf) fun r hr => if_neg (hr ▸ h)

theorem keys_modify (rows : List ρ) : (modify rows k f).map key = rows.map key :=
  keys_map (key_ite hf) rows

theorem distinctKeys_modify {rows : List ρ} : DistinctKeys (modify rows k f) ↔ DistinctKeys rows :=
  distinctKeys_map (key_ite hf)

theorem modify_modify (g : ρ → ρ) (rows : List ρ) :
    modify (modify rows k f) k g = modify rows k fun r => g (f r) := by
  rw [modify, modify, modify, List.map_map]
  refine List.map_congr_left fun r _ => ?_
  by_cases hk : key r = k <;> simp [hk, hf]

end Modify

/-- `DELETE … WHERE id = k`. -/
def delete (rows : List ρ) (k : κ) : List ρ := rows.filter fun r => key r ≠ k

theorem delete_sublist (rows : List ρ) (k : κ) : (delete rows k).Sublist rows := List.filter_sublist

theorem get_delete (rows : List ρ) (k k' : κ) :
    get (delete rows k) k' = if k' = k then none else get rows k' := by
  induction rows with
  | nil => simp [delete]
  | cons r rows ih =>
    simp only [get, delete] at ih ⊢
    by_cases hr : key r = k <;> by_cases hk : k' = k <;> by_cases hk' : key r = k' <;>
      simp_all

theorem delete_map {f : ρ → ρ} (hf : ∀ r, key (f r) = key r) (rows : List ρ) (k : κ) :
    delete (rows.map f) k = (delete rows k).map f := by
  rw [delete, List.filter_map, delete]
  simp [Function.comp_def, hf]

theorem delete_modify {k : κ} {f : ρ → ρ} (hf : ∀ r, key (f r) = key r) (rows : List ρ) :
    delete (modify rows k f) k = delete rows k := by
  induction rows with
  | nil => rfl
  | cons r rows ih =>
    simp only [delete, modify, List.map_cons] at ih ⊢
    by_cases hk : key r = k <;> simpa [hk, hf] using ih

/-- A row stands in the table once: changing it in place changes its contribution and
leaves that of the others. -/
theorem flatMap_modify_perm {β : Type*} {rows : List ρ} {k : κ} {r : ρ} (hu : DistinctKeys rows)
    (h : get rows k = some r) (f : ρ → ρ) (F : ρ → List β) :
    ((modify rows k f).flatMap F).Perm (F (f r) ++ (delete rows k).flatMap F) := by
  induction rows with
  | nil => cases h
  | cons r₀ rows ih =>
    obtain ⟨hn, hu⟩ := List.nodup_cons.mp hu
    by_cases hk : key r₀ = k
    · -- the other rows have other keys
      have hne : ∀ r ∈ rows, key r ≠ k := fun r hr he => hn (hk ▸ he ▸ List.mem_map_of_mem hr)
      have hm : modify rows k f = rows := by
        rw [modify, List.map_congr_left fun r hr => if_neg (hne r hr), List.map_id']
      have hd : delete rows k = rows := by
        rw [delete, List.filter_eq_self]
        exact fun r hr => by simpa using hne r hr
      obtain rfl : r₀ = r := by simpa [get, hk] using h
      have hm' : modify (r₀ :: rows) k f = f r₀ :: modify rows k f := by simp [modify, hk]
      have hd' : delete (r₀ :: rows) k = delete rows k := by simp [delete, hk]
      rw [hm', hd', hm, hd, List.flatMap_cons]
    · have hg : get rows k = some r := by simpa [get, hk] using h
      have hm' : modify (r₀ :: rows) k f = r₀ :: modify rows k f := by simp [modify, hk]
      have hd' : delete (r₀ :: rows) k = r₀ :: delete rows k := by simp [delete, hk]
      rw [hm', hd', List.flatMap_cons, List.flatMap_cons]
      refine ((ih hu hg).append_left (F r₀)).trans ?_
      rw [← List.append_assoc, ← List.append_assoc]
      exact List.perm_append_comm.append_right _

theorem flatMap_delete_perm {β : Type*} {rows : List ρ} {k : κ} {r : ρ} (hu : DistinctKeys rows)
    (h : get rows k = some r) (F : ρ → List β) :
    (rows.flatMap F).Perm (F r ++ (delete rows k).flatMap F) := by
  have hm : modify rows k id = rows := by simp [modify]
  simpa [hm] using flatMap_modify_perm hu h id F

theorem modify_perm {rows : List ρ} {k : κ} {r : ρ} (hu : DistinctKeys rows)
    (h : get rows k = some r) (f : ρ → ρ) : (modify rows k f).Perm (f r :: delete rows k) := by
  simpa using flatMap_modify_perm hu h f fun r => [r]

theorem delete_perm {rows : List ρ} {k : κ} {r : ρ} (hu : DistinctKeys rows)
    (h : get rows k = some r) : rows.Perm (r :: delete rows k) := by
  simpa using flatMap_delete_perm hu h fun r => [r]

theorem mem_modify {rows : List ρ} {k : κ} {f : ρ → ρ} {r : ρ} (h : r ∈ modify rows k f) :
    (r ∈ rows ∧ key r ≠ k) ∨ ∃ r₀ ∈ rows, key r₀ = k ∧ r = f r₀ := by
  obtain ⟨r₀, hr₀, rfl⟩ := List.mem_map.mp h
  by_cases hk : key r₀ = k
  · exact .inr ⟨r₀, hr₀, hk, by rw [if_pos hk]⟩
  · exact .inl ⟨by rwa [if_neg hk], by rwa [if_neg hk]⟩

/-! ### Insertion that leaves what is there -/

/-- `INSERT … ON CONFLICT DO NOTHING`, of one row, -/
def insertNew (rows : List ρ) (r : ρ) : List ρ :=
  if (get rows (key r)).isSome then rows else rows ++ [r]

/-- and of several. -/
def insertAllNew (rows news : List ρ) : List ρ := news.foldl insertNew rows

theorem distinctKeys_insertAllNew {rows : List ρ} (hu : DistinctKeys rows) (news : List ρ) :
    DistinctKeys (insertAllNew rows news) := by
  induction news generalizing rows with
  | nil => exact hu
  | cons r news ih =>
    refine ih ?_
    rw [insertNew]
    split
    · exact hu
    · next h => exact distinctKeys_append_singleton hu (by simpa using h)

/-- The rows that were there stay, and some of the new ones follow. -/
theorem exists_insertAllNew (rows news : List ρ) :
    ∃ created, insertAllNew rows news = rows ++ created ∧ created.Sublist news := by
  induction news generalizing rows with
  | nil => exact ⟨[], (List.append_nil rows).symm, .slnil⟩
  | cons r news ih =>
    obtain ⟨created, hrows, hsub⟩ := ih (insertNew rows r)
    rw [insertAllNew, List.foldl_cons, ← insertAllNew, hrows, insertNew]
    split
    · exact ⟨created, rfl, hsub.cons r⟩
    · exact ⟨r :: created, List.append_assoc rows [r] created, hsub.cons_cons r⟩

/-- Behind the insertion there is a row with the key of every new one. -/
theorem exists_key_insertAllNew {rows news : List ρ} {r : ρ} (hr : r ∈ news) :
    ∃ r' ∈ insertAllNew rows news, key r' = key r := by
  induction news generalizing rows with
  | nil => cases hr
  | cons a news ih =>
    rcases List.mem_cons.mp hr with rfl | hr
    · obtain ⟨created, hrows, -⟩ := exists_insertAllNew (insertNew rows r) news
      rw [insertAllNew, List.foldl_cons, ← insertAllNew, hrows]
      obtain ⟨r', hr', hkey⟩ : ∃ r' ∈ insertNew rows r, key r' = key r := by
        rw [insertNew]
        split
        · next h =>
          obtain ⟨r', hget⟩ := Option.isSome_iff_exists.mp h
          exact ⟨r', mem_of_get hget, key_of_get hget⟩
        · exact ⟨r, List.mem_append_right _ (List.mem_singleton_self r), rfl⟩
      exact ⟨r', List.mem_append_left _ hr', hkey⟩
    · exact ih hr

end LiberNovus.Rows

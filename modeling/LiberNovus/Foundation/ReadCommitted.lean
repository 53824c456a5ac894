import LiberNovus.Foundation.Rows

/-! A table under READ COMMITTED. Every open transaction has its own uncommitted
row versions and new rows; a statement sees the committed rows overlaid with its
own. Writing a row locks its key until the transaction ends. A partial unique
index maps some rows to a slot; a transaction that moves a row into or out of a
slot holds the slot until it ends, so that a second writer of the slot waits.

Waiting is a step that is not enabled. An `UPDATE` whose condition is evaluated on
a set of rows is run in two parts: the keys its statement snapshot matches, and
the write, which re-evaluates the condition on the current version of each of
these rows once all of them are free. -/

namespace LiberNovus.ReadCommitted

open Rows

/-- Rows with a partial unique index: at most one row per slot. -/
class Indexed (ρ : Type*) (ι : outParam (Type*)) where
  slot : ρ → Option ι

export Indexed (slot)

/-- Adding `r` to the rows violates the primary key or the partial unique index. -/
def Violates {ρ κ ι : Type*} [Keyed ρ κ] [Indexed ρ ι] (rows : List ρ) (r : ρ) : Prop :=
  ∃ r' ∈ rows, key r' = key r ∨ slot r ≠ none ∧ slot r' = slot r

instance {ρ κ ι : Type*} [DecidableEq κ] [DecidableEq ι] [Keyed ρ κ] [Indexed ρ ι] (rows : List ρ)
    (r : ρ) : Decidable (Violates rows r) :=
  inferInstanceAs (Decidable (∃ _ ∈ _, _))

/-- The committed rows, and the uncommitted work of each transaction `a`: new
versions of committed rows and new rows. -/
structure Table (τ κ ι ρ : Type*) where
  committed : List ρ
  updates : τ → κ → Option ρ
  inserts : τ → List ρ
  lock : κ → Option τ
  claim : ι → Option τ

namespace Table

variable {τ κ ι ρ : Type*}

/-- A table on which no transaction is open. -/
def ofRows (rows : List ρ) : Table τ κ ι ρ :=
  ⟨rows, fun _ _ => none, fun _ => [], fun _ => none, fun _ => none⟩

section Statements

variable [DecidableEq τ] [DecidableEq κ] [DecidableEq ι] [Keyed ρ κ] [Indexed ρ ι]

/-- The rows a statement of transaction `a` sees. -/
def view (T : Table τ κ ι ρ) (a : τ) : List ρ :=
  T.committed.map (fun r => (T.updates a (key r)).getD r) ++ T.inserts a

/-- The committed version of a row. -/
def row (T : Table τ κ ι ρ) (k : κ) : Option ρ := get T.committed k

/-- The version of a row that transaction `a` sees. -/
def seen (T : Table τ κ ι ρ) (a : τ) (k : κ) : Option ρ := get (T.view a) k

/-- No other transaction has locked the row. -/
def Free (T : Table τ κ ι ρ) (a : τ) (k : κ) : Prop := T.lock k = none ∨ T.lock k = some a

instance (T : Table τ κ ι ρ) (a : τ) (k : κ) : Decidable (T.Free a k) :=
  inferInstanceAs (Decidable (_ ∨ _))

/-- Take the index slots between which a write moves a row. -/
def claimed (claim : ι → Option τ) (a : τ) (before after : Option ι) : ι → Option τ :=
  if before = after then claim
  else fun i => if before = some i ∨ after = some i then some a else claim i

/-- `UPDATE … WHERE id = k`, once the row is free: lock the row and write a new
version of the one that is there. -/
def write (T : Table τ κ ι ρ) (a : τ) (k : κ) (f : ρ → ρ) : Table τ κ ι ρ :=
  match T.seen a k with
  | none => T
  | some r => { T with
      updates := fun b k' => if b = a ∧ k' = k ∧ T.row k ≠ none then some (f r) else T.updates b k'
      inserts := fun b => if b = a then modify (T.inserts b) k f else T.inserts b
      lock := fun k' => if k' = k then some a else T.lock k'
      claim := claimed T.claim a (slot r) (slot (f r)) }

/-- The second part of an `UPDATE … WHERE p`: write the rows of `keys` that still
satisfy `p`. -/
def writeAll (T : Table τ κ ι ρ) (a : τ) (keys : List κ) (p : ρ → Prop) [DecidablePred p]
    (f : ρ → ρ) : Table τ κ ι ρ :=
  keys.foldl (fun T k => T.write a k fun r => if p r then f r else r) T

/-- An `INSERT` has to wait for another transaction that holds its key or its slot. -/
def Blocked (T : Table τ κ ι ρ) (a : τ) (r : ρ) : Prop :=
  ¬ T.Free a (key r) ∨ ∃ i ∈ slot r, T.claim i ≠ none ∧ T.claim i ≠ some a

instance (T : Table τ κ ι ρ) (a : τ) (r : ρ) : Decidable (T.Blocked a r) :=
  inferInstanceAs (Decidable (_ ∨ ∃ _ ∈ _, _))

/-- An `INSERT` that does not have to wait fails with an integrity error. -/
def Conflicts (T : Table τ κ ι ρ) (a : τ) (r : ρ) : Prop := Violates (T.view a) r

instance (T : Table τ κ ι ρ) (a : τ) (r : ρ) : Decidable (T.Conflicts a r) :=
  inferInstanceAs (Decidable (Violates _ _))

def insert (T : Table τ κ ι ρ) (a : τ) (r : ρ) : Table τ κ ι ρ :=
  { T with
    inserts := fun b => if b = a then T.inserts b ++ [r] else T.inserts b
    lock := fun k => if k = key r then some a else T.lock k
    claim := claimed T.claim a none (slot r) }

/-- Forget the uncommitted work of `a` and release what it holds. -/
def rollback (T : Table τ κ ι ρ) (a : τ) : Table τ κ ι ρ :=
  { T with
    updates := fun b k => if b = a then none else T.updates b k
    inserts := fun b => if b = a then [] else T.inserts b
    lock := fun k => if T.lock k = some a then none else T.lock k
    claim := fun i => if T.claim i = some a then none else T.claim i }

/-- Make the work of `a` the committed state. -/
def commit (T : Table τ κ ι ρ) (a : τ) : Table τ κ ι ρ :=
  { T.rollback a with committed := T.view a }

end Statements

/-! ### Frames -/

section Frames

variable [DecidableEq τ] [DecidableEq κ] [DecidableEq ι] [Keyed ρ κ] [Indexed ρ ι]
variable {T : Table τ κ ι ρ} {a b : τ} {k k' : κ} {f : ρ → ρ} {r : ρ}

@[simp] theorem write_committed : (T.write a k f).committed = T.committed := by
  unfold write; split <;> rfl

@[simp] theorem insert_committed : (T.insert a r).committed = T.committed := rfl

omit [DecidableEq κ] [DecidableEq ι] [Keyed ρ κ] [Indexed ρ ι] in
@[simp] theorem rollback_committed : (T.rollback a).committed = T.committed := rfl

theorem write_updates_of_ne (h : b ≠ a) : (T.write a k f).updates b = T.updates b := by
  unfold write; split <;> simp [h]

theorem write_updates_of_key_ne (h : k' ≠ k) :
    (T.write a k f).updates b k' = T.updates b k' := by
  unfold write; split <;> simp [h]

theorem write_inserts_of_ne (h : b ≠ a) : (T.write a k f).inserts b = T.inserts b := by
  unfold write; split <;> simp [h]

theorem insert_inserts_of_ne (h : b ≠ a) : (T.insert a r).inserts b = T.inserts b := by
  simp [insert, h]

theorem write_inserts (f : ρ → ρ) : (T.write a k f).inserts a = T.inserts a ∨
    (T.write a k f).inserts a = modify (T.inserts a) k f := by
  unfold write; split <;> simp

theorem write_lock (j : κ) : (T.write a k f).lock j = T.lock j ∨
    j = k ∧ (T.write a k f).lock j = some a := by
  unfold write
  split
  · exact .inl rfl
  · by_cases h : j = k <;> simp [h]

/-- A write changes the pending version of the row it writes and of no other. -/
theorem write_updates (h : (T.write a k f).updates b k' = some r) :
    T.updates b k' = some r ∨
      b = a ∧ k' = k ∧ T.row k ≠ none ∧ ∃ r₀, T.seen a k = some r₀ ∧ r = f r₀ := by
  unfold write at h
  split at h
  · exact .inl h
  · next r₀ hr₀ =>
    dsimp only at h
    split at h
    · next hc => exact .inr ⟨hc.1, hc.2.1, hc.2.2, r₀, hr₀, (Option.some.inj h).symm⟩
    · exact .inl h

/-- A pending version is written over, never taken back. -/
theorem write_updates_ne_none (h : T.updates b k' ≠ none) : (T.write a k f).updates b k' ≠ none := by
  unfold write
  split
  · exact h
  · dsimp only
    split
    · simp
    · exact h

/-- A write takes the slots between which it moves its row. -/
theorem write_claim {i : ι} (h : (T.write a k f).claim i ≠ T.claim i) :
    ∃ r, T.seen a k = some r ∧ slot r ≠ slot (f r) ∧ (slot r = some i ∨ slot (f r) = some i) := by
  unfold write at h
  split at h
  · exact absurd rfl h
  · next r hr =>
    simp only [claimed] at h
    split at h
    · exact absurd rfl h
    · next hne => exact ⟨r, hr, hne, by_contra fun hn => h (if_neg hn)⟩

omit [DecidableEq κ] [DecidableEq ι] [Keyed ρ κ] [Indexed ρ ι] in
theorem rollback_updates (h : (T.rollback a).updates b k = some r) :
    b ≠ a ∧ T.updates b k = some r := by
  simp only [rollback] at h
  split at h
  · cases h
  · next hb => exact ⟨hb, h⟩

omit [DecidableEq ι] [Indexed ρ ι] in
theorem commit_row : (T.commit a).row k = T.seen a k := rfl

omit [DecidableEq κ] [DecidableEq ι] [Indexed ρ ι] in
theorem commit_committed : (T.commit a).committed = T.view a := rfl

omit [DecidableEq τ] [DecidableEq ι] in
/-- A row that can be inserted has a key that its inserter does not see. -/
theorem seen_of_not_conflicts (hc : ¬ T.Conflicts a r) : T.seen a (key r) = none := by
  rw [seen, get_eq_none]
  intro hm
  obtain ⟨r', hr', hk⟩ := List.mem_map.mp hm
  exact hc ⟨r', hr', .inl hk⟩

/-- What the inserter sees after an insert. -/
theorem seen_insert (hc : ¬ T.Conflicts a r) (k' : κ) :
    (T.insert a r).seen a k' = if k' = key r then some r else T.seen a k' := by
  have hnone : T.seen a (key r) = none := seen_of_not_conflicts hc
  have hview : (T.insert a r).view a = T.view a ++ [r] := by
    simp [view, Table.insert]
  rw [seen, hview, get_append]
  split
  · next he =>
    subst he
    rw [show get (T.view a) (key r) = none from hnone, Option.none_or, get_singleton, if_pos rfl]
  · next he =>
    rw [get_singleton, if_neg (Ne.symm he), Option.or_none]
    rfl

/-- Other transactions do not see an uncommitted write or insert. -/
theorem view_write_of_ne (h : b ≠ a) : (T.write a k f).view b = T.view b := by
  rw [view, view, write_committed, write_updates_of_ne h, write_inserts_of_ne h]

theorem view_insert_of_ne (h : b ≠ a) : (T.insert a r).view b = T.view b := by
  rw [view, view, insert_inserts_of_ne h]
  rfl

end Frames

/-! ### Consistency -/

section Consistent

variable [DecidableEq κ] [Keyed ρ κ]

/-- Pending versions belong to committed rows and pending rows have new keys, both
under the lock of the transaction that wrote them. -/
structure Consistent (T : Table τ κ ι ρ) : Prop where
  unique : DistinctKeys T.committed
  locked : ∀ a k r, T.updates a k = some r → T.lock k = some a ∧ key r = k ∧ T.row k ≠ none
  inserted : ∀ a, ∀ r ∈ T.inserts a, T.lock (key r) = some a ∧ T.row (key r) = none
  uniqueInserts : ∀ a, DistinctKeys (T.inserts a)

variable {T : Table τ κ ι ρ} {a b : τ} {k : κ} {f : ρ → ρ} {r : ρ}

theorem consistent_ofRows {rows : List ρ} (h : DistinctKeys rows) :
    (ofRows rows : Table τ κ ι ρ).Consistent :=
  ⟨h, by simp [ofRows], by simp [ofRows], fun _ => distinctKeys_nil⟩

namespace Consistent

variable (h : T.Consistent)
include h

theorem key_overlay (a : τ) (r : ρ) : key ((T.updates a (key r)).getD r) = key r := by
  cases hu : T.updates a (key r) with
  | none => rfl
  | some r' => exact (h.locked a _ r' hu).2.1

theorem seen_of_row {c : ρ} (hc : T.row k = some c) : T.seen a k = some ((T.updates a k).getD c) := by
  have hk : key c = k := key_of_get hc
  unfold row at hc
  rw [seen, view, get_append, get_map (h.key_overlay a), hc, Option.map_some, Option.some_or, hk]

theorem seen_of_new (hc : T.row k = none) : T.seen a k = get (T.inserts a) k := by
  unfold row at hc
  rw [seen, view, get_append, get_map (h.key_overlay a), hc, Option.map_none, Option.none_or]

/-- A write leaves a pending version of a committed row. -/
theorem write_updates_self [DecidableEq τ] [DecidableEq ι] [Indexed ρ ι] {c : ρ}
    (hc : T.row k = some c) : (T.write a k f).updates a k ≠ none := by
  unfold Table.write
  rw [h.seen_of_row hc]
  simp [hc]

/-- A transaction sees the committed version of every row it has not locked. -/
theorem seen_of_unlocked (hl : T.lock k ≠ some a) : T.seen a k = T.row k := by
  cases hc : T.row k with
  | none =>
    rw [h.seen_of_new hc, get_eq_none]
    intro hm
    obtain ⟨r, hr, rfl⟩ := List.mem_map.mp hm
    exact hl (h.inserted a r hr).1
  | some c =>
    rw [h.seen_of_row hc]
    cases hu : T.updates a k with
    | none => rfl
    | some r => exact absurd (h.locked a k r hu).1 hl

theorem view_distinctKeys (a : τ) : DistinctKeys (T.view a) := by
  have hk : (T.view a).map key = T.committed.map key ++ (T.inserts a).map key := by
    rw [view, List.map_append, keys_map (h.key_overlay a)]
  rw [DistinctKeys, hk, List.nodup_append]
  refine ⟨h.unique, h.uniqueInserts a, ?_⟩
  intro x hx y hy he
  obtain ⟨r, hr, rfl⟩ := List.mem_map.mp hy
  exact get_eq_none.mp (h.inserted a r hr).2 (he ▸ hx)

variable [DecidableEq τ]

theorem commit_row_of_unlocked (hl : T.lock k ≠ some a) : (T.commit a).row k = T.row k :=
  h.seen_of_unlocked hl

theorem rollback (a : τ) : (T.rollback a).Consistent where
  unique := h.unique
  locked := by
    intro b k r hr
    obtain ⟨hb, hr⟩ := rollback_updates hr
    obtain ⟨hl, hk, hrow⟩ := h.locked b k r hr
    exact ⟨by simp [Table.rollback, hl, hb], hk, hrow⟩
  inserted := by
    intro b r hr
    simp only [Table.rollback] at hr
    split at hr
    · cases hr
    · next hb =>
      obtain ⟨hl, hrow⟩ := h.inserted b r hr
      exact ⟨by simp [Table.rollback, hl, hb], hrow⟩
  uniqueInserts := by
    intro b
    simp only [Table.rollback]
    split
    · exact distinctKeys_nil
    · exact h.uniqueInserts b

/-- The locks keep two transactions off one row, so a commit leaves the pending
work of the others in place. -/
theorem commit (a : τ) : (T.commit a).Consistent where
  unique := h.view_distinctKeys a
  locked := by
    intro b k r hr
    obtain ⟨hl, hk, -⟩ := (h.rollback a).locked b k r hr
    obtain ⟨hb, hr⟩ := rollback_updates hr
    obtain ⟨hl', -, hrow⟩ := h.locked b k r hr
    refine ⟨hl, hk, ?_⟩
    rwa [h.commit_row_of_unlocked (by simp [hl', hb])]
  inserted := by
    intro b r hr
    obtain ⟨hl, -⟩ := (h.rollback a).inserted b r hr
    refine ⟨hl, ?_⟩
    simp only [Table.commit, Table.rollback] at hr
    split at hr
    · cases hr
    · next hb =>
      obtain ⟨hl', hrow⟩ := h.inserted b r hr
      rwa [h.commit_row_of_unlocked (by simp [hl', hb])]
  uniqueInserts := (h.rollback a).uniqueInserts

variable [DecidableEq ι] [Indexed ρ ι]

theorem write (hf : ∀ r, key (f r) = key r) (hl : T.Free a k) : (T.write a k f).Consistent where
  unique := by rw [write_committed]; exact h.unique
  locked := by
    intro b k' r hr
    simp only [row, write_committed]
    rcases write_updates hr with hr | ⟨rfl, rfl, hrow, r₀, hr₀, rfl⟩
    · obtain ⟨hl', hk, hrow⟩ := h.locked b k' r hr
      refine ⟨?_, hk, hrow⟩
      rcases write_lock (T := T) (a := a) (k := k) (f := f) k' with hw | ⟨rfl, hw⟩
      · rw [hw, hl']
      · -- a pending version of the written row is the writer's own
        rcases hl with hl | hl
        · rw [hl] at hl'; cases hl'
        · rw [hw, ← hl, hl']
    · refine ⟨?_, by rw [hf, key_of_get hr₀], hrow⟩
      unfold Table.write
      rw [hr₀]
      simp
  inserted := by
    intro b r hr
    simp only [row, write_committed]
    by_cases hb : b = a
    · subst hb
      have hr' : ∃ r₀ ∈ T.inserts b, key r = key r₀ := by
        rcases write_inserts (T := T) (a := b) (k := k) f with he | he
        · exact ⟨r, he ▸ hr, rfl⟩
        · rcases mem_modify (he ▸ hr) with ⟨hr, -⟩ | ⟨r₀, hr₀, -, rfl⟩
          · exact ⟨r, hr, rfl⟩
          · exact ⟨r₀, hr₀, hf r₀⟩
      obtain ⟨r₀, hr₀, hk⟩ := hr'
      obtain ⟨hl', hrow⟩ := h.inserted b r₀ hr₀
      rw [hk]
      refine ⟨?_, hrow⟩
      rcases write_lock (T := T) (a := b) (k := k) (f := f) (key r₀) with hw | ⟨-, hw⟩
      · rw [hw, hl']
      · exact hw
    · rw [write_inserts_of_ne hb] at hr
      obtain ⟨hl', hrow⟩ := h.inserted b r hr
      refine ⟨?_, hrow⟩
      rcases write_lock (T := T) (a := a) (k := k) (f := f) (key r) with hw | ⟨rfl, -⟩
      · rw [hw, hl']
      · rcases hl with hl | hl <;> rw [hl] at hl'
        · cases hl'
        · exact absurd (Option.some.inj hl').symm hb
  uniqueInserts := by
    intro b
    by_cases hb : b = a
    · subst hb
      rcases write_inserts (T := T) (a := b) (k := k) f with he | he <;> rw [he]
      · exact h.uniqueInserts b
      · exact (distinctKeys_modify hf).mpr (h.uniqueInserts b)
    · rw [write_inserts_of_ne hb]
      exact h.uniqueInserts b

theorem insert (hb : ¬ T.Blocked a r) (hc : ¬ T.Conflicts a r) : (T.insert a r).Consistent := by
  have hfree : T.Free a (key r) := by_contra fun hf => hb (.inl hf)
  have hnone : T.seen a (key r) = none := seen_of_not_conflicts hc
  have hrow : T.row (key r) = none := by
    cases hr : T.row (key r) with
    | none => rfl
    | some c => rw [h.seen_of_row hr] at hnone; cases hnone
  -- a lock on the new key can only be the inserter's own
  have hlock : ∀ {c k}, T.lock k = some c → (T.insert a r).lock k = some c := by
    intro c k hl
    by_cases hk : k = key r
    · subst hk
      rcases hfree with hf | hf <;> rw [hf] at hl
      · cases hl
      · simp [Table.insert, Option.some.inj hl]
    · simp [Table.insert, hk, hl]
  refine ⟨h.unique, ?_, ?_, ?_⟩
  · intro c k r' hr'
    obtain ⟨hl, hk, hr⟩ := h.locked c k r' hr'
    exact ⟨hlock hl, hk, hr⟩
  · intro c r' hr'
    by_cases hca : c = a
    · subst hca
      simp only [Table.insert, if_true, List.mem_append, List.mem_singleton] at hr'
      rcases hr' with hr' | rfl
      · exact ⟨hlock (h.inserted c r' hr').1, (h.inserted c r' hr').2⟩
      · exact ⟨by simp [Table.insert], hrow⟩
    · rw [insert_inserts_of_ne hca] at hr'
      exact ⟨hlock (h.inserted c r' hr').1, (h.inserted c r' hr').2⟩
  · intro c
    by_cases hca : c = a
    · subst hca
      simp only [Table.insert, if_true]
      rw [h.seen_of_new hrow] at hnone
      exact distinctKeys_append_singleton (h.uniqueInserts c) hnone
    · rw [insert_inserts_of_ne hca]
      exact h.uniqueInserts c

/-- What the writer sees after a write. -/
theorem seen_write (hf : ∀ r, key (f r) = key r) (hl : T.Free a k) (k' : κ) :
    (T.write a k f).seen a k' = if k' = k then (T.seen a k).map f else T.seen a k' := by
  have hw := h.write hf hl
  have hrow : ∀ j, (T.write a k f).row j = T.row j := fun j => by rw [row, write_committed, row]
  cases hs : T.seen a k with
  | none =>
    have hsame : T.write a k f = T := by unfold Table.write; rw [hs]
    rw [hsame]
    split
    · next he => rw [he, hs]; rfl
    · rfl
  | some r =>
    have hup : ∀ j, (T.write a k f).updates a j =
        if j = k ∧ T.row k ≠ none then some (f r) else T.updates a j := fun j => by
      unfold Table.write
      rw [hs]
      simp
    have hin : (T.write a k f).inserts a = modify (T.inserts a) k f := by
      unfold Table.write
      rw [hs]
      simp
    cases hc : T.row k' with
    | some c =>
      rw [hw.seen_of_row ((hrow k').trans hc), hup, h.seen_of_row hc]
      by_cases he : k' = k
      · subst he
        simp [hc]
      · simp [he]
    | none =>
      rw [hw.seen_of_new ((hrow k').trans hc), hin, h.seen_of_new hc, get_modify hf]
      split
      · next he => rw [← hs, h.seen_of_new (he ▸ hc)]
      · rfl

end Consistent

end Consistent

/-! ### Rewriting several rows -/

section WriteAll

variable [DecidableEq τ] [DecidableEq κ] [DecidableEq ι] [Keyed ρ κ] [Indexed ρ ι]
variable {T : Table τ κ ι ρ} {a b : τ} {keys : List κ} {p : ρ → Prop} [DecidablePred p] {f : ρ → ρ}

theorem free_write {k k' : κ} (h : T.Free a k') : (T.write a k f).Free a k' := by
  rcases write_lock (T := T) (a := a) (k := k) (f := f) k' with hw | ⟨-, hw⟩
  · rwa [Free, hw]
  · exact .inr hw

/-- What a single write of a free row preserves, the whole statement preserves. -/
theorem writeAll_invariant {Q : Table τ κ ι ρ → Prop}
    (hQ : ∀ T k, Q T → T.Free a k → Q (T.write a k fun r => if p r then f r else r))
    (hfree : ∀ k ∈ keys, T.Free a k) (h : Q T) : Q (T.writeAll a keys p f) := by
  induction keys generalizing T with
  | nil => exact h
  | cons k keys ih =>
    refine ih (fun k' hk' => free_write (hfree k' (List.mem_cons_of_mem _ hk'))) ?_
    exact hQ T k h (hfree k List.mem_cons_self)

@[simp] theorem writeAll_committed : (T.writeAll a keys p f).committed = T.committed := by
  induction keys generalizing T with
  | nil => rfl
  | cons k keys ih => exact ih.trans write_committed

theorem writeAll_inserts_of_ne (h : b ≠ a) : (T.writeAll a keys p f).inserts b = T.inserts b := by
  induction keys generalizing T with
  | nil => rfl
  | cons k keys ih => exact ih.trans (write_inserts_of_ne h)

theorem writeAll_updates_of_ne (h : b ≠ a) : (T.writeAll a keys p f).updates b = T.updates b := by
  induction keys generalizing T with
  | nil => rfl
  | cons k keys ih => exact ih.trans (write_updates_of_ne h)

theorem writeAll_inserts_of_nil (h : T.inserts a = []) : (T.writeAll a keys p f).inserts a = [] := by
  induction keys generalizing T with
  | nil => exact h
  | cons k keys ih =>
    refine ih ?_
    rcases write_inserts (T := T) (a := a) (k := k) (fun r => if p r then f r else r) with he | he <;>
      rw [he, h]
    rfl

/-- A statement changes the pending versions of the rows it names and of no others. -/
theorem writeAll_updates {k : κ} {r : ρ} (h : (T.writeAll a keys p f).updates b k = some r) :
    T.updates b k = some r ∨ b = a ∧ k ∈ keys := by
  induction keys generalizing T with
  | nil => exact .inl h
  | cons k₀ keys ih =>
    rcases ih h with h | ⟨hb, hk⟩
    · rcases write_updates h with h | ⟨hb, hk, -⟩
      · exact .inl h
      · exact .inr ⟨hb, hk ▸ List.mem_cons_self⟩
    · exact .inr ⟨hb, List.mem_cons_of_mem _ hk⟩

theorem Consistent.writeAll (h : T.Consistent) (hf : ∀ r, key (f r) = key r)
    (hfree : ∀ k ∈ keys, T.Free a k) : (T.writeAll a keys p f).Consistent :=
  writeAll_invariant (fun T _ hT hl => hT.write (fun r => by split <;> simp [hf]) hl) hfree h

/-- It leaves a pending version with `P` of every committed row it names, when it turns
every row into one with `P`. -/
theorem writeAll_updates_of_mem {P : ρ → Prop} (hT : T.Consistent) (hkey : ∀ r, key (f r) = key r)
    (hfree : ∀ k ∈ keys, T.Free a k) (hP : ∀ r, P (if p r then f r else r)) {k : κ}
    (hrow : T.row k ≠ none)
    (hk : k ∈ keys ∨ ∃ r, T.updates a k = some r ∧ P r) :
    ∃ r, (T.writeAll a keys p f).updates a k = some r ∧ P r := by
  induction keys generalizing T with
  | nil =>
    rcases hk with hk | hk
    · cases hk
    · exact hk
  | cons k₀ keys ih =>
    have hkey' : ∀ r, key (if p r then f r else r) = key r := fun r => by split <;> simp [hkey]
    refine ih (hT.write hkey' (hfree k₀ List.mem_cons_self))
      (fun k' hk' => free_write (hfree k' (List.mem_cons_of_mem _ hk')))
      (by rwa [row, write_committed]) ?_
    obtain ⟨c, hc⟩ := Option.ne_none_iff_exists'.mp hrow
    have hw : ∀ r, T.seen a k = some r → k = k₀ →
        (T.write a k₀ fun r => if p r then f r else r).updates a k = some (if p r then f r else r) := by
      rintro r hr rfl
      unfold write
      rw [hr]
      simp [hrow]
    by_cases h₀ : k = k₀
    · exact .inr ⟨_, hw _ (hT.seen_of_row hc) h₀, hP _⟩
    · rcases hk with hk | ⟨r, hr, hPr⟩
      · exact .inl ((List.mem_cons.mp hk).resolve_left h₀)
      · exact .inr ⟨r, (write_updates_of_key_ne h₀).trans hr, hPr⟩

end WriteAll

/-! ### How pending versions relate to committed ones -/

section Evolves

variable [DecidableEq κ] [Keyed ρ κ]

/-- Every pending version of transaction `a` is an `R a`-successor of the committed version. -/
def Evolves (R : τ → ρ → ρ → Prop) (T : Table τ κ ι ρ) : Prop :=
  ∀ a k r c, T.updates a k = some r → T.row k = some c → R a c r

variable {R R' : τ → ρ → ρ → Prop} {T : Table τ κ ι ρ} {a : τ} {k : κ} {f : ρ → ρ} {r : ρ}

theorem evolves_ofRows (rows : List ρ) : (ofRows rows : Table τ κ ι ρ).Evolves R := by
  simp [Evolves, ofRows]

namespace Evolves

variable (h : T.Evolves R)
include h

theorem mono (hR : ∀ a k r c, T.updates a k = some r → R a c r → R' a c r) : T.Evolves R' :=
  fun a k r c hr hc => hR a k r c hr (h a k r c hr hc)

/-- What a transaction sees of a committed row succeeds that row. -/
theorem seen (hT : T.Consistent) (hrefl : ∀ r, R a r r) {c : ρ} (hc : T.row k = some c) :
    ∃ r, T.seen a k = some r ∧ R a c r := by
  refine ⟨_, hT.seen_of_row hc, ?_⟩
  cases hu : T.updates a k with
  | none => exact hrefl c
  | some r => exact h a k r c hu hc

/-- A property of rows that no pending version changes has, over the rows a
transaction sees, the values of the committed rows and then those of its new rows. -/
theorem view_map {β : Type*} {g : ρ → β} (hg : ∀ c r, R a c r → g r = g c) (hT : T.Consistent) :
    (T.view a).map g = T.committed.map g ++ (T.inserts a).map g := by
  rw [view, List.map_append, List.map_map]
  congr 1
  refine List.map_congr_left fun c hc => ?_
  have hrow : T.row (key c) = some c := get_of_mem hT.unique hc
  cases hu : T.updates a (key c) with
  | none => simp [hu]
  | some r => simpa [hu] using hg c r (h a _ r c hu hrow)

variable [DecidableEq τ]

theorem rollback (a : τ) : (T.rollback a).Evolves R :=
  fun b k r c hr hc => h b k r c (rollback_updates hr).2 hc

theorem commit (hT : T.Consistent) (a : τ) : (T.commit a).Evolves R := by
  intro b k r c hr hc
  obtain ⟨hb, hr⟩ := rollback_updates hr
  have hl : T.lock k ≠ some a := by
    rw [(hT.locked b k r hr).1]
    exact fun he => hb (Option.some.inj he)
  rw [hT.commit_row_of_unlocked hl] at hc
  exact h b k r c hr hc

/-- A commit takes every committed row to an `R`-successor. -/
theorem commit_row (hT : T.Consistent) (hrefl : ∀ r, R a r r) {c : ρ} (hc : T.row k = some c) :
    ∃ c', (T.commit a).row k = some c' ∧ R a c c' :=
  h.seen hT hrefl hc

variable [DecidableEq ι] [Indexed ρ ι]

/-- A write keeps the relation when it leads from what the writer sees to a
successor of the committed row. -/
theorem write (hT : T.Consistent) (hrefl : ∀ r, R a r r)
    (hf : ∀ c r, T.row k = some c → T.seen a k = some r → R a c r → R a c (f r)) :
    (T.write a k f).Evolves R := by
  intro b k' r c hr hc
  rw [row, write_committed] at hc
  rcases write_updates hr with hr | ⟨rfl, rfl, -, r₀, hr₀, rfl⟩
  · exact h b k' r c hr hc
  · obtain ⟨r₁, hr₁, hR⟩ := h.seen (a := b) hT hrefl hc
    obtain rfl := Option.some.inj (hr₁.symm.trans hr₀)
    exact hf c r₁ hc hr₀ hR

/-- So does a statement that takes every row to a successor. -/
theorem writeAll {keys : List κ} {p : ρ → Prop} [DecidablePred p] (hT : T.Consistent)
    (hkey : ∀ r, key (f r) = key r) (hrefl : ∀ r, R a r r)
    (hf : ∀ c r, p r → R a c r → R a c (f r)) (hfree : ∀ k ∈ keys, T.Free a k) :
    (T.writeAll a keys p f).Evolves R := by
  refine (writeAll_invariant (Q := fun T => T.Consistent ∧ T.Evolves R)
    (fun T k hT hl => ⟨?_, ?_⟩) hfree ⟨hT, h⟩).2
  · exact hT.1.write (fun r => by split <;> simp [hkey]) hl
  · refine hT.2.write hT.1 hrefl fun c r _ _ hR => ?_
    split
    · exact hf c r ‹_› hR
    · exact hR

theorem insert : (T.insert a r).Evolves R := h

end Evolves

end Evolves

/-! ### Transactions that have written nothing -/

section Untouched

variable {T : Table τ κ ι ρ} {a b : τ}

/-- Transaction `a` has no pending work on the table. -/
def Untouched (T : Table τ κ ι ρ) (a : τ) : Prop :=
  (∀ k, T.updates a k = none) ∧ T.inserts a = []

theorem untouched_ofRows (rows : List ρ) (a : τ) : (ofRows rows : Table τ κ ι ρ).Untouched a :=
  ⟨fun _ => rfl, rfl⟩

theorem untouched_rollback [DecidableEq τ] : (T.rollback a).Untouched a := by
  simp [Untouched, rollback]

theorem Untouched.view [Keyed ρ κ] (h : T.Untouched a) : T.view a = T.committed := by
  simp [Table.view, h.1, h.2]

theorem rollback_work_of_ne [DecidableEq τ] (h : b ≠ a) :
    (T.rollback a).updates b = T.updates b ∧ (T.rollback a).inserts b = T.inserts b := by
  simp [rollback, h]

end Untouched

end Table

end LiberNovus.ReadCommitted

import Mathlib.Data.List.Nodup
import Mathlib.Data.List.Range
import Mathlib.Data.Nat.SuccPred
import Mathlib.Order.Bounds.Basic
import LiberNovus.Foundation.ReadCommitted
import LiberNovus.Runtime.Job

/-! The rows of `admin_prompt_versions` when versions are created one after another: a new
version takes the next number of its type, and an active one deactivates the earlier ones.

Proved: the numbers of a type are `1, …, n`, nothing but the flag of a row ever changes, and
the active row of a type is the last one that was created active. -/

namespace LiberNovus.Admin

open Rows ReadCommitted

/-- A row of `admin_prompt_versions`. -/
structure AdminPromptVersion where
  id : Uuid
  promptType : String
  version : ℕ
  content : String
  activeFlag : Bool
  createdAt : Time
  deriving DecidableEq, Repr

/-- `uq_admin_prompt_versions_type_version`. -/
instance : Keyed AdminPromptVersion (String × ℕ) := ⟨fun row => (row.promptType, row.version)⟩

/-- `ix_admin_prompt_versions_one_active_per_type`. -/
instance : Indexed AdminPromptVersion String :=
  ⟨fun row => if row.activeFlag then some row.promptType else none⟩

theorem key_prompt (row : AdminPromptVersion) : key row = (row.promptType, row.version) := rfl

namespace AdminPromptVersion

/-- The columns that are written once. -/
structure Fixed where
  id : Uuid
  promptType : String
  version : ℕ
  content : String
  createdAt : Time

def fixed (row : AdminPromptVersion) : Fixed :=
  ⟨row.id, row.promptType, row.version, row.content, row.createdAt⟩

def deactivated (row : AdminPromptVersion) : AdminPromptVersion := { row with activeFlag := false }

/-- `UPDATE … SET active_flag = false WHERE prompt_type = …`, on one row. -/
def deactivate (promptType : String) (row : AdminPromptVersion) : AdminPromptVersion :=
  if row.promptType = promptType then row.deactivated else row

@[simp] theorem fixed_deactivated (row : AdminPromptVersion) : row.deactivated.fixed = row.fixed := rfl

@[simp] theorem fixed_deactivate (promptType : String) (row : AdminPromptVersion) :
    (row.deactivate promptType).fixed = row.fixed := by
  unfold deactivate
  split <;> rfl

theorem key_deactivate (promptType : String) (row : AdminPromptVersion) :
    key (row.deactivate promptType) = key row := by
  unfold deactivate
  split <;> rfl

end AdminPromptVersion

open AdminPromptVersion

variable {rows created : List AdminPromptVersion} {row : AdminPromptVersion} {promptType : String}

/-- The version numbers of a type. -/
def versionsOf (rows : List AdminPromptVersion) (promptType : String) : List ℕ :=
  (rows.filter fun row => row.promptType = promptType).map AdminPromptVersion.version

/-- The table after the creation of a version. -/
def record (rows : List AdminPromptVersion) (row : AdminPromptVersion) : List AdminPromptVersion :=
  (if row.activeFlag then rows.map (deactivate row.promptType) else rows) ++ [row]

/-- The table after creations one after another. -/
def history (created : List AdminPromptVersion) : List AdminPromptVersion := created.foldl record []

/-- Each version takes the number after those of its type. -/
inductive Numbered : List AdminPromptVersion → Prop
  | nil : Numbered []
  | snoc (created : List AdminPromptVersion) (row : AdminPromptVersion) (h : Numbered created)
      (hv : row.version = (versionsOf created row.promptType).length + 1) :
      Numbered (created ++ [row])

/-- The numbers of the versions of a type that were created active. -/
def activeVersions (created : List AdminPromptVersion) (promptType : String) : Set ℕ :=
  {v | ∃ row ∈ created, row.promptType = promptType ∧ row.activeFlag = true ∧ row.version = v}

/-- What the rows say about the versions that have been created. -/
structure Versions (created rows : List AdminPromptVersion) : Prop where
  fixed : rows.map AdminPromptVersion.fixed = created.map AdminPromptVersion.fixed
  numbers : ∀ promptType, ∃ n, versionsOf rows promptType = List.range' 1 n
  oneActive : ∀ promptType,
    (rows.filter fun row => row.promptType = promptType ∧ row.activeFlag = true).length ≤ 1
  highest : ∀ row ∈ rows, row.activeFlag = true ↔
    IsGreatest (activeVersions created row.promptType) row.version
  active : ∀ promptType, (activeVersions created promptType).Nonempty →
    ∃ row ∈ rows, row.promptType = promptType ∧ row.activeFlag = true

/-! ### One creation -/

theorem mem_versionsOf {v : ℕ} :
    v ∈ versionsOf rows promptType ↔ ∃ row ∈ rows, row.promptType = promptType ∧ row.version = v := by
  simp [versionsOf, and_assoc]

theorem versionsOf_append (rows rows' : List AdminPromptVersion) (promptType : String) :
    versionsOf (rows ++ rows') promptType = versionsOf rows promptType ++ versionsOf rows' promptType := by
  simp [versionsOf]

theorem versionsOf_singleton (row : AdminPromptVersion) (promptType : String) :
    versionsOf [row] promptType = if row.promptType = promptType then [row.version] else [] := by
  by_cases h : row.promptType = promptType <;> simp [versionsOf, h]

/-- The numbers depend on the fixed columns alone. -/
theorem versionsOf_eq (rows : List AdminPromptVersion) (promptType : String) :
    versionsOf rows promptType =
      ((rows.map AdminPromptVersion.fixed).filter fun row => row.promptType = promptType).map
        Fixed.version := by
  simp only [versionsOf, List.filter_map, List.map_map]
  rfl

theorem fixed_record (rows : List AdminPromptVersion) (row : AdminPromptVersion) :
    (record rows row).map AdminPromptVersion.fixed =
      rows.map AdminPromptVersion.fixed ++ [row.fixed] := by
  unfold record
  split <;> simp [Function.comp_def]

theorem versionsOf_record (rows : List AdminPromptVersion) (row : AdminPromptVersion)
    (promptType : String) : versionsOf (record rows row) promptType =
      versionsOf rows promptType ++ versionsOf [row] promptType := by
  rw [versionsOf_eq, fixed_record, ← versionsOf_append, versionsOf_eq (rows ++ [row]),
    List.map_append, List.map_singleton]

theorem history_append (created : List AdminPromptVersion) (row : AdminPromptVersion) :
    history (created ++ [row]) = record (history created) row := by
  simp [history]

theorem fixed_history (created : List AdminPromptVersion) :
    (history created).map AdminPromptVersion.fixed = created.map AdminPromptVersion.fixed := by
  induction created using List.reverseRecOn with
  | nil => rfl
  | append_singleton created row ih =>
    rw [history_append, fixed_record, ih, List.map_append, List.map_singleton]

theorem versionsOf_history (created : List AdminPromptVersion) (promptType : String) :
    versionsOf (history created) promptType = versionsOf created promptType := by
  rw [versionsOf_eq, fixed_history, ← versionsOf_eq]

/-! ### Any number of creations -/

theorem Numbered.range' (h : Numbered created) (promptType : String) :
    versionsOf created promptType = List.range' 1 (versionsOf created promptType).length := by
  induction h with
  | nil => rfl
  | snoc created row _ hv ih =>
    rw [versionsOf_append, versionsOf_singleton]
    split
    · next ht =>
      rw [List.length_append, List.length_singleton, List.range'_1_concat, ← ih, hv, ht, Nat.add_comm 1]
    · rw [List.append_nil]
      exact ih

/-- A new number is above those of its type. -/
theorem Numbered.lt_of_mem (h : Numbered created) {v n : ℕ} (hv : v ∈ versionsOf created promptType)
    (hn : n = (versionsOf created promptType).length + 1) : v < n := by
  rw [h.range', List.mem_range'_1] at hv
  omega

theorem activeVersions_subset {v : ℕ} (hv : v ∈ activeVersions created promptType) :
    v ∈ versionsOf created promptType := by
  obtain ⟨row, hr, ht, -, rfl⟩ := hv
  exact mem_versionsOf.mpr ⟨row, hr, ht, rfl⟩

theorem mem_activeVersions_append {v : ℕ} :
    v ∈ activeVersions (created ++ [row]) promptType ↔ v ∈ activeVersions created promptType ∨
      row.promptType = promptType ∧ row.activeFlag = true ∧ row.version = v := by
  simp only [activeVersions, List.mem_append, List.mem_singleton, Set.mem_ofPred_eq]
  constructor
  · rintro ⟨r, hr | rfl, h⟩
    · exact .inl ⟨r, hr, h⟩
    · exact .inr h
  · rintro (⟨r, hr, h⟩ | h)
    · exact ⟨r, .inl hr, h⟩
    · exact ⟨row, .inr rfl, h⟩

theorem activeVersions_append_of_not (h : ¬ (row.promptType = promptType ∧ row.activeFlag = true)) :
    activeVersions (created ++ [row]) promptType = activeVersions created promptType := by
  ext v
  rw [mem_activeVersions_append]
  refine or_iff_left ?_
  rintro ⟨ht, ha, -⟩
  exact h ⟨ht, ha⟩

/-- The rows of a history carry the numbers of the created versions. -/
theorem version_mem_of_history (hr : row ∈ history created) :
    row.version ∈ versionsOf created row.promptType := by
  rw [← versionsOf_history]
  exact mem_versionsOf.mpr ⟨row, hr, rfl, rfl⟩

theorem highest_history (h : Numbered created) : ∀ row ∈ history created, row.activeFlag = true ↔
    IsGreatest (activeVersions created row.promptType) row.version := by
  induction h with
  | nil => simp [history]
  | snoc created new hn hv ih =>
    intro row hr
    rw [history_append] at hr
    by_cases hnew : row.promptType = new.promptType ∧ new.activeFlag = true
    · obtain ⟨ht, ha⟩ := hnew
      have hgreatest : IsGreatest (activeVersions (created ++ [new]) row.promptType) new.version := by
        refine ⟨mem_activeVersions_append.mpr (.inr ⟨ht.symm, ha, rfl⟩), fun v hmem => ?_⟩
        rcases mem_activeVersions_append.mp hmem with hmem | ⟨-, -, rfl⟩
        · exact (hn.lt_of_mem (activeVersions_subset hmem) (ht ▸ hv)).le
        · exact le_rfl
      simp only [record, ha, if_true, List.mem_append, List.mem_map, List.mem_singleton] at hr
      rcases hr with ⟨old, hold, rfl⟩ | rfl
      · -- an earlier version of the type is deactivated, and its number is lower
        have htype : old.promptType = new.promptType := by
          unfold deactivate at ht
          split at ht
          · assumption
          · exact ht
        have hd : old.deactivate new.promptType = old.deactivated := if_pos htype
        rw [hd] at hgreatest ⊢
        have hlt : old.version < new.version :=
          hn.lt_of_mem (version_mem_of_history hold) (htype ▸ hv)
        constructor
        · intro hfalse
          cases hfalse
        · intro hg
          exact absurd (hg.unique hgreatest) hlt.ne
      · exact ⟨fun _ => hgreatest, fun _ => ha⟩
    · have hold : row ∈ history created ∨ row = new ∧ new.activeFlag = false := by
        simp only [record, List.mem_append, List.mem_singleton] at hr
        rcases hr with hr | rfl
        · split at hr
          · next ha =>
            obtain ⟨old, hold, rfl⟩ := List.mem_map.mp hr
            have htype : old.promptType ≠ new.promptType := by
              intro he
              refine hnew ⟨?_, ha⟩
              rw [deactivate, if_pos he]
              exact he
            rw [deactivate, if_neg htype]
            exact .inl hold
          · exact .inl hr
        · exact .inr ⟨rfl, by simpa using hnew⟩
      rw [activeVersions_append_of_not fun hc => hnew ⟨hc.1.symm, hc.2⟩]
      rcases hold with hold | ⟨rfl, ha⟩
      · exact ih row hold
      · -- a version that is created inactive has a number of its own
        rw [ha]
        constructor
        · intro hfalse
          cases hfalse
        · intro hg
          exact absurd (hn.lt_of_mem (activeVersions_subset hg.1) hv) (lt_irrefl _)

/-- What the rows say after creations one after another. -/
theorem versions_history (h : Numbered created) : Versions created (history created) where
  fixed := fixed_history created
  numbers promptType := ⟨_, (versionsOf_history created promptType).trans (h.range' promptType)⟩
  highest := highest_history h
  oneActive := by
    intro promptType
    set active := (history created).filter
      fun row => row.promptType = promptType ∧ row.activeFlag = true with hactive
    have hmem : ∀ row ∈ active, row ∈ history created ∧ row.promptType = promptType ∧
        row.activeFlag = true := fun row hr => by simpa [hactive] using hr
    have hnodup : (active.map AdminPromptVersion.version).Nodup := by
      have hsub : active.Sublist ((history created).filter fun row => row.promptType = promptType) :=
        List.monotone_filter_right _ fun row hr => by
          rw [decide_eq_true_iff] at hr ⊢
          exact hr.1
      refine (hsub.map AdminPromptVersion.version).nodup ?_
      change (versionsOf (history created) promptType).Nodup
      rw [versionsOf_history, h.range']
      exact List.nodup_range'
    -- they share one number
    have hsame : ∀ row ∈ active, ∀ row' ∈ active, row.version = row'.version := by
      intro row hr row' hr'
      obtain ⟨hin, ht, ha⟩ := hmem row hr
      obtain ⟨hin', ht', ha'⟩ := hmem row' hr'
      have hg := (highest_history h row hin).mp ha
      have hg' := (highest_history h row' hin').mp ha'
      rw [ht] at hg
      rw [ht'] at hg'
      exact hg.unique hg'
    match hc : active with
    | [] => exact Nat.zero_le 1
    | [_] => exact le_rfl
    | row :: row' :: rest =>
      have he := hsame row (by simp) row' (by simp)
      simp [he] at hnodup
  active := by
    intro promptType hne
    have hbdd : BddAbove (activeVersions created promptType) :=
      ⟨(versionsOf created promptType).length + 1, fun v hv =>
        (h.lt_of_mem (activeVersions_subset hv) rfl).le⟩
    obtain ⟨v, hv⟩ := hbdd.exists_isGreatest_of_nonempty hne
    have hmem : v ∈ versionsOf (history created) promptType := by
      rw [versionsOf_history]
      exact activeVersions_subset hv.1
    obtain ⟨row, hr, ht, rfl⟩ := mem_versionsOf.mp hmem
    exact ⟨row, hr, ht, (highest_history h row hr).mpr (ht ▸ hv)⟩

end LiberNovus.Admin

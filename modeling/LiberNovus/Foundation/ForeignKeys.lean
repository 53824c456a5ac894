import LiberNovus.Foundation.Results

/-! Foreign keys, which the database checks at the end of every statement: a statement that would
leave a reference without its target is refused.

Proved: a change keeps the foreign keys when no target goes and every new reference has one. A
script of deletions in which no target goes while the references to it are still to be deleted,
is refused exactly when something that it leaves refers to something that it takes, and then for
such a reference. -/

namespace LiberNovus.ForeignKeys

open Results

variable {φ σ κ : Type}

/-- The foreign keys `φ` over the tables `σ`: the values of the referring column, without the
nulls, and the keys they refer to. -/
structure Schema (φ σ κ : Type) where
  references : φ → σ → List κ
  targets : φ → σ → List κ
  all : List φ
  complete : ∀ fk, fk ∈ all

namespace Schema

variable (schema : Schema φ σ κ)

/-- Every reference has its target. -/
def Holds (fk : φ) (s : σ) : Prop := ∀ k ∈ schema.references fk s, k ∈ schema.targets fk s

instance [DecidableEq κ] (fk : φ) (s : σ) : Decidable (schema.Holds fk s) :=
  inferInstanceAs (Decidable (∀ k ∈ _, k ∈ _))

/-- All foreign keys hold. -/
def Integral (s : σ) : Prop := ∀ fk, schema.Holds fk s

/-- The end of a statement that has made `after` of the tables. -/
def check [DecidableEq κ] (after : σ) : Except φ σ :=
  match schema.all.find? fun fk => ¬ schema.Holds fk after with
  | none => .ok after
  | some fk => .error fk

/-- Statements one after another, up to the first that is refused. -/
def script [DecidableEq κ] : List (σ → σ) → σ → Except φ σ
  | [], s => .ok s
  | f :: fs, s => do
    let after ← schema.check (f s)
    script fs after

/-- The tables behind statements that are not refused. -/
def final : List (σ → σ) → σ → σ
  | [], s => s
  | f :: fs, s => final fs (f s)

variable {schema}

theorem check_eq_ok [DecidableEq κ] {after t : σ} :
    schema.check after = .ok t ↔ t = after ∧ schema.Integral after := by
  unfold check
  split
  · next hnone =>
    have hall : schema.Integral after := fun fk => by
      simpa using List.find?_eq_none.mp hnone fk (schema.complete fk)
    simp [hall, eq_comm]
  · next fk hfk =>
    have hfails : ¬ schema.Holds fk after := by simpa using List.find?_some hfk
    simp only [reduceCtorEq, false_iff, not_and]
    exact fun _ hall => hfails (hall fk)

theorem not_holds_of_check [DecidableEq κ] {after : σ} {fk : φ}
    (h : schema.check after = .error fk) : ¬ schema.Holds fk after := by
  unfold check at h
  split at h
  · cases h
  · next hfk =>
    cases h
    simpa using List.find?_some hfk

theorem final_of_script [DecidableEq κ] {fs : List (σ → σ)} {s t : σ} (h : schema.script fs s = .ok t) :
    t = final fs s := by
  induction fs generalizing s with
  | nil =>
    cases h
    rfl
  | cons f fs ih =>
    obtain ⟨after, hafter, h⟩ := bind_eq_ok.mp h
    obtain ⟨rfl, -⟩ := check_eq_ok.mp hafter
    exact ih h

/-! ### Changes -/

/-- No target goes, and every new reference has its target. -/
structure Grows (schema : Schema φ σ κ) (s t : σ) : Prop where
  targets : ∀ fk, schema.targets fk s ⊆ schema.targets fk t
  references : ∀ fk, ∀ k ∈ schema.references fk t,
    k ∈ schema.references fk s ∨ k ∈ schema.targets fk t

theorem Grows.refl (schema : Schema φ σ κ) (s : σ) : schema.Grows s s :=
  ⟨fun _ => List.Subset.refl _, fun _ _ => .inl⟩

theorem Grows.trans {s t u : σ} (h : schema.Grows s t) (h' : schema.Grows t u) :
    schema.Grows s u where
  targets fk := List.Subset.trans (h.targets fk) (h'.targets fk)
  references fk k hk := by
    rcases h'.references fk k hk with hk | hk
    · exact (h.references fk k hk).imp_right (h'.targets fk ·)
    · exact .inr hk

theorem Grows.integral {s t : σ} (h : schema.Grows s t) (hs : schema.Integral s) :
    schema.Integral t := fun fk k hk =>
  (h.references fk k hk).elim (fun hk => h.targets fk (hs fk k hk)) id

/-! ### Deletions -/

/-- A statement that takes references and targets, and adds none. -/
structure Deletes (schema : Schema φ σ κ) (f : σ → σ) : Prop where
  references : ∀ fk s, schema.references fk (f s) ⊆ schema.references fk s
  targets : ∀ fk s, schema.targets fk (f s) ⊆ schema.targets fk s

/-- A statement that takes targets of a foreign key comes behind all that take references to
them. -/
def ChildrenFirst (schema : Schema φ σ κ) : List (σ → σ) → σ → Prop
  | [], _ => True
  | f :: fs, s => (∀ fk, schema.targets fk (f s) = schema.targets fk s ∨
      schema.references fk (f s) ⊆ schema.references fk (final fs (f s))) ∧
        ChildrenFirst schema fs (f s)

theorem references_final {fs : List (σ → σ)} (hdel : ∀ f ∈ fs, schema.Deletes f) (fk : φ) (s : σ) :
    schema.references fk (final fs s) ⊆ schema.references fk s := by
  induction fs generalizing s with
  | nil => exact List.Subset.refl _
  | cons f fs ih =>
    have hf : schema.Deletes f := hdel f List.mem_cons_self
    exact List.Subset.trans (ih (fun g hg => hdel g (List.mem_cons_of_mem _ hg)) (f s)) (hf.references fk s)

theorem targets_final {fs : List (σ → σ)} (hdel : ∀ f ∈ fs, schema.Deletes f) (fk : φ) (s : σ) :
    schema.targets fk (final fs s) ⊆ schema.targets fk s := by
  induction fs generalizing s with
  | nil => exact List.Subset.refl _
  | cons f fs ih =>
    have hf : schema.Deletes f := hdel f List.mem_cons_self
    exact List.Subset.trans (ih (fun g hg => hdel g (List.mem_cons_of_mem _ hg)) (f s)) (hf.targets fk s)

/-- What is in order at both ends of a script is in order behind its first statement. -/
theorem holds_of_final {f : σ → σ} {fs : List (σ → σ)} {s : σ} {fk : φ}
    (hdel : ∀ g ∈ f :: fs, schema.Deletes g) (hord : schema.ChildrenFirst (f :: fs) s)
    (hs : schema.Holds fk s) (hfinal : schema.Holds fk (final (f :: fs) s)) :
    schema.Holds fk (f s) := by
  have hf : schema.Deletes f := hdel f List.mem_cons_self
  intro k hk
  rcases hord.1 fk with hkeep | hkeep
  · rw [hkeep]
    exact hs k (hf.references fk s hk)
  · -- nothing that is still to come takes the reference
    have hlast : k ∈ schema.targets fk (final fs (f s)) := hfinal k (hkeep hk)
    exact targets_final (fun g hg => hdel g (List.mem_cons_of_mem _ hg)) fk (f s) hlast

/-- A script of deletions goes through exactly when the foreign keys hold at its end. -/
theorem script_eq_ok [DecidableEq κ] {fs : List (σ → σ)} {s t : σ}
    (hdel : ∀ f ∈ fs, schema.Deletes f) (hord : schema.ChildrenFirst fs s) (hs : schema.Integral s) :
    schema.script fs s = .ok t ↔ t = final fs s ∧ schema.Integral (final fs s) := by
  induction fs generalizing s with
  | nil => simp [script, final, hs, eq_comm]
  | cons f fs ih =>
    have hrest : ∀ g ∈ fs, schema.Deletes g := fun g hg => hdel g (List.mem_cons_of_mem _ hg)
    simp only [script, bind_eq_ok, check_eq_ok, final]
    constructor
    · rintro ⟨_, ⟨rfl, hf⟩, h⟩
      exact (ih hrest hord.2 hf).mp h
    · rintro ⟨rfl, hfinal⟩
      have hf : schema.Integral (f s) := fun fk => holds_of_final hdel hord (hs fk) (hfinal fk)
      exact ⟨_, ⟨rfl, hf⟩, (ih hrest hord.2 hf).mpr ⟨rfl, hfinal⟩⟩

/-- The foreign key that a script of deletions runs into does not hold at its end. -/
theorem not_holds_of_script [DecidableEq κ] {fs : List (σ → σ)} {s : σ} {fk : φ}
    (hdel : ∀ f ∈ fs, schema.Deletes f) (hord : schema.ChildrenFirst fs s) (hs : schema.Integral s)
    (h : schema.script fs s = .error fk) : ¬ schema.Holds fk (final fs s) := by
  induction fs generalizing s with
  | nil => cases h
  | cons f fs ih =>
    rw [script] at h
    rcases hcheck : schema.check (f s) with fk' | after <;> rw [hcheck] at h
    · cases h
      exact fun hfinal => not_holds_of_check hcheck (holds_of_final hdel hord (hs _) hfinal)
    · obtain ⟨rfl, hf⟩ := check_eq_ok.mp hcheck
      exact ih (fun g hg => hdel g (List.mem_cons_of_mem _ hg)) hord.2 hf h

end Schema

end LiberNovus.ForeignKeys

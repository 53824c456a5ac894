import LiberNovus.Admin.PromptHistory
import LiberNovus.Foundation.Runs

/-! Any number of concurrent transactions that create prompt versions, statement by statement.
The number comes from a `SELECT`, and the deactivation from an `UPDATE` of the rows that its
own snapshot holds; neither locks the versions that are still to come.

Proved: in every run the committed rows are those of the committed creations done one after
another. A transaction that worked from an outdated maximum finds its number taken. -/

namespace LiberNovus.Admin.PromptVersions

open Rows ReadCommitted Runs
open AdminPromptVersion (deactivate key_deactivate)

/-- The arguments of `create_prompt_version`. -/
structure NewPrompt where
  promptType : String
  content : String
  active : Bool
  deriving DecidableEq, Repr

/-- The calls, each in a transaction of its own. -/
inductive Call where
  | createPromptVersion (prompt : NewPrompt)
  | createNextPromptVersion (previousId : Uuid) (content : String)
  deriving DecidableEq, Repr

/-- Where a transaction stands: before the `SELECT` of the previous version, before that of the
latest number, before the `UPDATE` takes its snapshot, before the `INSERT` with the rows that
the `UPDATE` has still to write, or at its end. -/
inductive Stage where
  | previous (previousId : Uuid) (content : String)
  | latest (prompt : NewPrompt)
  | update (prompt : NewPrompt) (nextVersion : ℕ)
  | insert (prompt : NewPrompt) (nextVersion : ℕ) (keys : List (String × ℕ))
  | returned
  deriving DecidableEq, Repr

def Call.start : Call → Stage
  | .createPromptVersion prompt => .latest prompt
  | .createNextPromptVersion previousId content => .previous previousId content

structure Transaction where
  startedAt : Time
  stage : Stage
  deriving DecidableEq

abbrev Prompts := Table ℕ (String × ℕ) String AdminPromptVersion

/-- `SELECT max(version) … WHERE prompt_type = …`. -/
def latestVersion (rows : List AdminPromptVersion) (promptType : String) : Option ℕ :=
  (versionsOf rows promptType).max?

/-- The next statement of transaction `a`, or the next row of its `UPDATE`, which is the one
with key `k`; `id` is the `uuid4` of a new row. -/
def Transaction.step (T : Prompts) (a : ℕ) (id : Uuid) (k : String × ℕ) (x : Transaction) :
    Option (Prompts × Stage) :=
  match x.stage with
  | .previous previousId content =>
    match (T.view a).find? fun row => row.id = previousId with
    | none => some (T, .returned)
    | some previous => some (T, .latest ⟨previous.promptType, content, true⟩)
  | .latest prompt =>
    let nextVersion := (latestVersion (T.view a) prompt.promptType).getD 0 + 1
    some (T, if prompt.active then .update prompt nextVersion else .insert prompt nextVersion [])
  | .update prompt nextVersion =>
    some (T, .insert prompt nextVersion
      (((T.view a).filter fun row => row.promptType = prompt.promptType).map key))
  | .insert prompt nextVersion [] =>
    let row : AdminPromptVersion :=
      ⟨id, prompt.promptType, nextVersion, prompt.content, prompt.active, x.startedAt⟩
    if T.Blocked a row ∨ T.Conflicts a row then none else some (T.insert a row, .returned)
  | .insert prompt nextVersion keys =>
    if k ∈ keys ∧ T.Free a k then
      some (T.write a k (deactivate prompt.promptType), .insert prompt nextVersion (keys.erase k))
    else none
  | .returned => none

/-- The table, the open transactions, and the committed new rows as they were inserted. -/
structure State where
  prompts : Prompts
  txs : ℕ → Option Transaction
  created : List AdminPromptVersion

inductive Event where
  | begin (a : ℕ) (call : Call) (startedAt : Time)
  | step (a : ℕ) (id : Uuid) (k : String × ℕ)
  | commit (a : ℕ)
  | rollback (a : ℕ)
  deriving DecidableEq

/-- One event. A statement that has to wait or fails is not enabled; a transaction that
anything interrupts is rolled back. -/
def step (s : State) : Event → Option State
  | .begin a call startedAt =>
    if s.txs a = none then
      some { s with txs := Function.update s.txs a (some ⟨startedAt, call.start⟩) }
    else none
  | .step a id k => do
    let x ← s.txs a
    let (T, stage) ← x.step s.prompts a id k
    some { s with prompts := T, txs := Function.update s.txs a (some { x with stage := stage }) }
  | .commit a => do
    let x ← s.txs a
    if x.stage = .returned then
      some {
        prompts := s.prompts.commit a
        txs := Function.update s.txs a none
        created := s.created ++ s.prompts.inserts a }
    else none
  | .rollback a =>
    if s.txs a = none then none
    else some { s with
      prompts := s.prompts.rollback a
      txs := Function.update s.txs a none }

def empty : State := ⟨Table.ofRows [], fun _ => none, []⟩

/-! ### The work of one transaction -/

section Work

variable {T T' : Prompts} {a b : ℕ} {promptType : String} {active : Bool} {nextVersion : ℕ}
  {keys : List (String × ℕ)}

/-- The number of versions of a type. -/
def count (T : Prompts) (promptType : String) : ℕ := (versionsOf T.committed promptType).length

/-- The transaction is creating the version with number `nextVersion`, which is at most the
next one. What it has written are deactivations; when the version is to be active, all lower
versions are deactivated but those of `keys`. -/
structure Writing (T : Prompts) (a : ℕ) (promptType : String) (active : Bool) (nextVersion : ℕ)
    (keys : List (String × ℕ)) : Prop where
  bound : 1 ≤ nextVersion ∧ nextVersion ≤ count T promptType + 1
  named : ∀ k ∈ keys, active = true ∧ k.1 = promptType
  pending : ∀ k r, T.updates a k = some r →
    active = true ∧ ∃ c, T.row k = some c ∧ c.promptType = promptType ∧ r = c.deactivated
  covered : active = true → ∀ c ∈ T.committed, c.promptType = promptType →
    c.version < nextVersion → key c ∈ keys ∨ T.updates a (key c) ≠ none

/-- What holds of the work of a transaction at each stage. -/
def Working (T : Prompts) (a : ℕ) : Stage → Prop
  | .previous .. | .latest .. => T.Untouched a
  | .update prompt nextVersion => T.Untouched a ∧ prompt.active = true ∧
      1 ≤ nextVersion ∧ nextVersion ≤ count T prompt.promptType + 1
  | .insert prompt nextVersion keys => T.inserts a = [] ∧
      Writing T a prompt.promptType prompt.active nextVersion keys
  | .returned => T.Untouched a ∨ ∃ row, T.inserts a = [row] ∧
      row.version = count T row.promptType + 1 ∧
      Writing T a row.promptType row.activeFlag row.version []

/-- It depends on the committed rows and on the transaction's own work. -/
theorem Writing.congr (h : Writing T b promptType active nextVersion keys)
    (hc : T'.committed = T.committed) (hu : T'.updates b = T.updates b) :
    Writing T' b promptType active nextVersion keys where
  bound := by simpa only [count, hc] using h.bound
  named := h.named
  pending := by simpa only [hu, Table.row, hc] using h.pending
  covered := by simpa only [hu, hc] using h.covered

theorem Working.congr {stage : Stage} (h : Working T b stage) (hc : T'.committed = T.committed)
    (hu : T'.updates b = T.updates b) (hi : T'.inserts b = T.inserts b) : Working T' b stage := by
  have hunt : T.Untouched b → T'.Untouched b := fun hn =>
    ⟨fun k => (congrFun hu k).trans (hn.1 k), hi.trans hn.2⟩
  cases stage with
  | previous | latest => exact hunt h
  | update => exact ⟨hunt h.1, h.2.1, by simpa only [count, hc] using h.2.2⟩
  | insert => exact ⟨hi.trans h.1, h.2.congr hc hu⟩
  | returned =>
    rcases h with h | ⟨row, hrow, hv, hw⟩
    · exact .inl (hunt h)
    · exact .inr ⟨row, hi.trans hrow, by simpa only [count, hc] using hv, hw.congr hc hu⟩

/-- A number without a transaction has written nothing. -/
def Held (T : Prompts) (a : ℕ) : Option Transaction → Prop
  | none => T.Untouched a
  | some x => Working T a x.stage

theorem Held.congr {tx : Option Transaction} (h : Held T b tx) (hc : T'.committed = T.committed)
    (hu : T'.updates b = T.updates b) (hi : T'.inserts b = T.inserts b) : Held T' b tx := by
  cases tx with
  | none => exact ⟨fun k => (congrFun hu k).trans (h.1 k), hi.trans h.2⟩
  | some x => exact Working.congr h hc hu hi

/-- A transaction that has written nothing may begin to write. -/
theorem Writing.start (h : T.Untouched a) (hbound : 1 ≤ nextVersion ∧ nextVersion ≤ count T promptType + 1)
    (hnamed : ∀ k ∈ keys, active = true ∧ k.1 = promptType)
    (hkeys : active = true → ∀ c ∈ T.committed, c.promptType = promptType → key c ∈ keys) :
    Writing T a promptType active nextVersion keys where
  bound := hbound
  named := hnamed
  pending := by simp [h.1]
  covered hactive c hc ht _ := .inl (hkeys hactive c hc ht)

/-- One row of the `UPDATE`. -/
theorem Writing.write (hT : T.Consistent) (h : Writing T a promptType active nextVersion keys)
    {k : String × ℕ} (hk : k ∈ keys) :
    Writing (T.write a k (deactivate promptType)) a promptType active nextVersion
      (keys.erase k) where
  bound := by simpa only [count, Table.write_committed] using h.bound
  named k' hk' := h.named k' (List.mem_of_mem_erase hk')
  pending := by
    intro k' r hr
    rw [Table.row, Table.write_committed]
    rcases Table.write_updates hr with hr | ⟨-, rfl, hrow, r₀, hr₀, rfl⟩
    · exact h.pending k' r hr
    · obtain ⟨c, hc⟩ := Option.ne_none_iff_exists'.mp hrow
      have ht : c.promptType = promptType := by
        have hkey : key c = k' := key_of_get hc
        rw [← (h.named k' hk).2, ← hkey]
        rfl
      refine ⟨(h.named k' hk).1, c, hc, ht, ?_⟩
      rw [hT.seen_of_row hc, Option.some.injEq] at hr₀
      subst hr₀
      cases hu : T.updates a k' with
      | none =>
        rw [Option.getD_none]
        exact if_pos ht
      | some r =>
        -- a row that was written before is deactivated again
        obtain ⟨-, c', hc', -, rfl⟩ := h.pending k' r hu
        obtain rfl : c = c' := Option.some.inj (hc.symm.trans hc')
        rw [Option.getD_some]
        exact if_pos ht
  covered := by
    intro ha c hc ht hlt
    rw [Table.write_committed] at hc
    rcases h.covered ha c hc ht hlt with hmem | hne
    · by_cases hck : key c = k
      · subst hck
        exact .inr (hT.write_updates_self (get_of_mem hT.unique hc))
      · exact .inl ((List.mem_erase_of_ne hck).mpr hmem)
    · exact .inr (Table.write_updates_ne_none hne)

/-- The commit of another transaction adds a version that is not below. -/
theorem Writing.commit (hT : T.Consistent) (hb : b ≠ a)
    (h : Writing T b promptType active nextVersion keys) {row : AdminPromptVersion}
    (hview : T.view a = record T.committed row)
    (hv : row.version = count T row.promptType + 1) :
    Writing (T.commit a) b promptType active nextVersion keys := by
  have hcommitted : (T.commit a).committed = record T.committed row := hview
  have hu : (T.commit a).updates b = T.updates b := (T.rollback_work_of_ne hb).1
  refine ⟨⟨h.bound.1, ?_⟩, h.named, fun k r hr => ?_, fun ha c hc ht hlt => ?_⟩
  · rw [count, hcommitted, versionsOf_record, List.length_append]
    exact h.bound.2.trans (by unfold count; omega)
  · rw [hu] at hr
    have hl : T.lock k ≠ some a := by
      rw [(hT.locked b k r hr).1]
      exact fun he => hb (Option.some.inj he)
    rw [hT.commit_row_of_unlocked hl]
    exact h.pending k r hr
  · rw [hu]
    rw [hcommitted, record, List.mem_append, List.mem_singleton] at hc
    rcases hc with hc | rfl
    · split at hc
      · obtain ⟨old, hold, rfl⟩ := List.mem_map.mp hc
        have hkey := key_deactivate row.promptType old
        rw [hkey]
        simp only [key_prompt, Prod.mk.injEq] at hkey
        exact h.covered ha old hold (hkey.1 ▸ ht) (hkey.2 ▸ hlt)
      · exact h.covered ha c hc ht hlt
    · have hbound := h.bound.2
      rw [ht] at hv
      omega

/-- What a transaction sees once it has inserted its version. -/
theorem Writing.view (hT : T.Consistent) {row : AdminPromptVersion}
    (h : Writing T a row.promptType row.activeFlag row.version []) (hi : T.inserts a = [row])
    (hlt : ∀ c ∈ T.committed, c.promptType = row.promptType → c.version < row.version) :
    T.view a = record T.committed row := by
  rw [Table.view, hi, record]
  congr 1
  split
  · next ha =>
    refine List.map_congr_left fun c hc => ?_
    have hrow : T.row (key c) = some c := get_of_mem hT.unique hc
    by_cases ht : c.promptType = row.promptType
    · have hne := (h.covered ha c hc ht (hlt c hc ht)).resolve_left List.not_mem_nil
      obtain ⟨r, hr⟩ := Option.ne_none_iff_exists'.mp hne
      obtain ⟨-, c', hc', -, rfl⟩ := h.pending (key c) r hr
      obtain rfl : c = c' := Option.some.inj (hrow.symm.trans hc')
      rw [hr, Option.getD_some, deactivate, if_pos ht]
    · have hu : T.updates a (key c) = none := by
        rw [Option.eq_none_iff_forall_ne_some]
        intro r hr
        obtain ⟨-, c', hc', ht', -⟩ := h.pending (key c) r hr
        obtain rfl : c = c' := Option.some.inj (hrow.symm.trans hc')
        exact ht ht'
      rw [hu, Option.getD_none, deactivate, if_neg ht]
  · next ha =>
    have hu : ∀ k, T.updates a k = none := fun k => by
      rw [Option.eq_none_iff_forall_ne_some]
      exact fun r hr => ha (h.pending k r hr).1
    simp [hu]

end Work

/-! ### Every statement -/

/-- What holds in every state: the committed rows are those of the creations that have been
committed, done one after another. -/
structure Wf (s : State) : Prop where
  consistent : s.prompts.Consistent
  replays : s.prompts.committed = history s.created
  numbered : Numbered s.created
  held : ∀ a, Held s.prompts a (s.txs a)

section Statement

variable {T T' : Prompts} {a b : ℕ} {id : Uuid} {k : String × ℕ} {x : Transaction}
  {stage : Stage} {created : List AdminPromptVersion}

/-- What a statement does to the table. -/
inductive Effect (T : Prompts) (a : ℕ) : Prompts → Prop
  | read : Effect T a T
  | write (k : String × ℕ) (promptType : String) (hfree : T.Free a k) :
      Effect T a (T.write a k (deactivate promptType))
  | insert (row : AdminPromptVersion) (hb : ¬ T.Blocked a row) (hc : ¬ T.Conflicts a row) :
      Effect T a (T.insert a row)

theorem effect_of_step (h : x.step T a id k = some (T', stage)) : Effect T a T' := by
  unfold Transaction.step at h
  split at h
  · split at h <;> cases h <;> exact .read
  · cases h
    exact .read
  · cases h
    exact .read
  · dsimp only at h
    split at h <;> cases h
    next hn => exact .insert _ (fun hb => hn (.inl hb)) fun hc => hn (.inr hc)
  · split at h <;> cases h
    next hk => exact .write k _ hk.2
  · cases h

theorem Effect.consistent (h : T.Consistent) (he : Effect T a T') : T'.Consistent := by
  cases he with
  | read => exact h
  | write k promptType hfree => exact h.write (key_deactivate promptType) hfree
  | insert row hb hc => exact h.insert hb hc

theorem Effect.committed (he : Effect T a T') : T'.committed = T.committed := by
  cases he <;> simp

theorem Effect.work (he : Effect T a T') (hb : b ≠ a) :
    T'.updates b = T.updates b ∧ T'.inserts b = T.inserts b := by
  cases he with
  | read => exact ⟨rfl, rfl⟩
  | write => exact ⟨Table.write_updates_of_ne hb, Table.write_inserts_of_ne hb⟩
  | insert => exact ⟨rfl, Table.insert_inserts_of_ne hb⟩

/-- The next number, as long as the transaction sees the committed rows. -/
theorem latestVersion_eq {rows : List AdminPromptVersion} {promptType : String}
    (h : versionsOf rows promptType = List.range' 1 (versionsOf rows promptType).length) :
    (latestVersion rows promptType).getD 0 = (versionsOf rows promptType).length := by
  rw [latestVersion, h]
  cases (versionsOf rows promptType).length with
  | zero => rfl
  | succ n =>
    have hmax : (List.range' 1 (n + 1)).max? = some (n + 1) := by
      refine List.max?_eq_some_iff.mpr ⟨?_, fun m hm => ?_⟩
      · rw [List.mem_range'_1]
        omega
      · rw [List.mem_range'_1] at hm
        omega
    rw [hmax, List.length_range', Option.getD_some]

/-- Every statement leaves its transaction with what its next stage relies on. -/
theorem working_step (hT : T.Consistent)
    (hnumbers : ∀ promptType, versionsOf T.committed promptType =
      List.range' 1 (count T promptType))
    (h : Working T a x.stage) (hs : x.step T a id k = some (T', stage)) : Working T' a stage := by
  unfold Transaction.step at hs
  split at hs
  · next hx =>
    rw [hx] at h
    split at hs <;> cases hs
    · exact .inl h
    · exact h
  · next prompt hx =>
    rw [hx] at h
    have hnext : (latestVersion (T.view a) prompt.promptType).getD 0 = count T prompt.promptType := by
      rw [Table.Untouched.view h]
      exact latestVersion_eq (hnumbers prompt.promptType)
    cases hs
    rw [hnext]
    split
    · next ha => exact ⟨h, ha, by omega, le_rfl⟩
    · next ha =>
      exact ⟨h.2, .start h ⟨by omega, le_rfl⟩ (by simp) fun hc => absurd hc ha⟩
  · next prompt nextVersion hx =>
    rw [hx] at h
    obtain ⟨hunt, hactive, hbound⟩ := h
    cases hs
    refine ⟨hunt.2, .start hunt hbound (fun k hk => ?_) fun _ c hc ht => ?_⟩
    · simp only [List.mem_map, List.mem_filter, decide_eq_true_eq] at hk
      obtain ⟨row, ⟨-, ht⟩, rfl⟩ := hk
      exact ⟨hactive, ht⟩
    · rw [Table.Untouched.view hunt]
      exact List.mem_map_of_mem (List.mem_filter.mpr ⟨hc, by simpa using ht⟩)
  · next prompt nextVersion hx =>
    rw [hx] at h
    obtain ⟨hi, hw⟩ := h
    dsimp only at hs
    split at hs <;> cases hs
    next hn =>
    obtain ⟨-, hc⟩ := not_or.mp hn
    set row : AdminPromptVersion :=
      ⟨id, prompt.promptType, nextVersion, prompt.content, prompt.active, x.startedAt⟩ with hrow
    -- the number was not taken, so it is the next one
    have hv : nextVersion = count T prompt.promptType + 1 := by
      have hbound := hw.bound
      by_contra hne
      have hmem : nextVersion ∈ versionsOf T.committed prompt.promptType := by
        rw [hnumbers, List.mem_range'_1]
        omega
      obtain ⟨c, hc', ht, hcv⟩ := mem_versionsOf.mp hmem
      have hseen := hT.seen_of_row (a := a) (get_of_mem hT.unique hc')
      refine hc ⟨_, mem_of_get hseen, .inl ?_⟩
      rw [key_of_get hseen, key_prompt, key_prompt, ht, hcv]
    refine .inr ⟨row, ?_, hv, hw.congr rfl rfl⟩
    simp [Table.insert, hi]
  · next prompt nextVersion keys hkeys hx =>
    rw [hx] at h
    obtain ⟨hi, hw⟩ := h
    split at hs <;> cases hs
    next hk =>
    refine ⟨?_, hw.write hT hk.1⟩
    rcases Table.write_inserts (T := T) (a := a) (k := k) (deactivate prompt.promptType) with he | he <;>
      rw [he, hi]
    rfl
  · cases hs

end Statement

/-! ### Every event -/

section Step

variable {s t : State} {a : ℕ}

theorem wf_empty : Wf empty where
  consistent := Table.consistent_ofRows distinctKeys_nil
  replays := rfl
  numbered := .nil
  held := Table.untouched_ofRows []

theorem Wf.numbers (h : Wf s) (promptType : String) :
    versionsOf s.prompts.committed promptType = List.range' 1 (count s.prompts promptType) := by
  rw [count, h.replays, versionsOf_history]
  exact h.numbered.range' promptType

/-- The number of the version that a transaction has inserted is above those of its type. -/
theorem Wf.version_lt (h : Wf s) {promptType : String} {n : ℕ} (hn : n = count s.prompts promptType + 1)
    {c : AdminPromptVersion} (hc : c ∈ s.prompts.committed) (ht : c.promptType = promptType) :
    c.version < n := by
  have hmem : c.version ∈ versionsOf s.prompts.committed promptType := mem_versionsOf.mpr ⟨c, hc, ht, rfl⟩
  rw [h.numbers, List.mem_range'_1] at hmem
  omega

theorem held_update {T : Prompts} {txs : ℕ → Option Transaction} {tx : Option Transaction}
    (ha : Held T a tx) (hb : ∀ b, b ≠ a → Held T b (txs b)) (b : ℕ) :
    Held T b (Function.update txs a tx b) := by
  by_cases h : b = a
  · subst h
    rwa [Function.update_self]
  · rw [Function.update_of_ne h]
    exact hb b h

theorem wf_begin {call : Call} {startedAt : Time} (hw : Wf s)
    (ht : step s (.begin a call startedAt) = some t) : Wf t := by
  simp only [step, Option.ite_none_right_eq_some, Option.some.injEq] at ht
  obtain ⟨hn, rfl⟩ := ht
  have hunt : s.prompts.Untouched a := by simpa [Held, hn] using hw.held a
  refine ⟨hw.consistent, hw.replays, hw.numbered, held_update ?_ fun b _ => hw.held b⟩
  cases call <;> exact hunt

theorem wf_statement {id : Uuid} {k : String × ℕ} (hw : Wf s)
    (ht : step s (.step a id k) = some t) : Wf t := by
  simp only [step, Option.bind_eq_bind, Option.bind_eq_some_iff, Option.some.injEq, Prod.exists]
    at ht
  obtain ⟨x, hx, T', stage, hstep, rfl⟩ := ht
  have he := effect_of_step hstep
  have hheld : Working s.prompts a x.stage := by simpa [Held, hx] using hw.held a
  refine ⟨he.consistent hw.consistent, he.committed.trans hw.replays, hw.numbered,
    held_update (working_step hw.consistent hw.numbers hheld hstep) fun b hb => ?_⟩
  exact (hw.held b).congr he.committed (he.work hb).1 (he.work hb).2

theorem wf_rollback (hw : Wf s) (ht : step s (.rollback a) = some t) : Wf t := by
  simp only [step, Option.ite_none_left_eq_some, Option.some.injEq] at ht
  obtain ⟨-, rfl⟩ := ht
  refine ⟨hw.consistent.rollback a, hw.replays, hw.numbered,
    held_update Table.untouched_rollback fun b hb => ?_⟩
  obtain ⟨hu, hi⟩ := s.prompts.rollback_work_of_ne hb
  exact (hw.held b).congr rfl hu hi

/-- The commit of a version of another transaction. -/
theorem working_commit (hw : Wf s) {row : AdminPromptVersion} (hi : s.prompts.inserts a = [row])
    (hv : row.version = count s.prompts row.promptType + 1)
    (hview : s.prompts.view a = record s.prompts.committed row) {b : ℕ} (hb : b ≠ a) {stage : Stage}
    (h : Working s.prompts b stage) : Working (s.prompts.commit a) b stage := by
  obtain ⟨hu', hi'⟩ := s.prompts.rollback_work_of_ne hb
  have hunt : s.prompts.Untouched b → (s.prompts.commit a).Untouched b := fun hn =>
    ⟨fun k => (congrFun hu' k).trans (hn.1 k), hi'.trans hn.2⟩
  have hcount : ∀ promptType, count (s.prompts.commit a) promptType =
      count s.prompts promptType + (versionsOf [row] promptType).length := fun promptType => by
    have hcommitted : (s.prompts.commit a).committed = record s.prompts.committed row := hview
    rw [count, hcommitted, versionsOf_record, List.length_append, count]
  cases stage with
  | previous | latest => exact hunt h
  | update prompt nextVersion =>
    refine ⟨hunt h.1, h.2.1, h.2.2.1, ?_⟩
    rw [hcount]
    exact h.2.2.2.trans (by omega)
  | insert prompt nextVersion keys =>
    exact ⟨hi'.trans h.1, h.2.commit hw.consistent hb hview hv⟩
  | returned =>
    rcases h with hn | ⟨row', hrow', hv', hw'⟩
    · exact .inl (hunt hn)
    · refine .inr ⟨row', hi'.trans hrow', ?_, hw'.commit hw.consistent hb hview hv⟩
      have hne : row.promptType ≠ row'.promptType := by
        -- two versions of one type would have one number, and hold one lock
        intro he
        have hkey : key row = key row' := by rw [key_prompt, key_prompt, hv, hv', he]
        have hl := (hw.consistent.inserted a row (by simp [hi])).1
        have hl' := (hw.consistent.inserted b row' (by simp [hrow'])).1
        rw [hkey, hl', Option.some.injEq] at hl
        exact hb hl
      rw [hcount, versionsOf_singleton, if_neg hne]
      exact hv'

theorem wf_commit (hw : Wf s) (ht : step s (.commit a) = some t) : Wf t := by
  simp only [step, Option.bind_eq_bind, Option.bind_eq_some_iff, Option.ite_none_right_eq_some,
    Option.some.injEq] at ht
  obtain ⟨x, hx, hstage, rfl⟩ := ht
  have hh : Working s.prompts a .returned := by
    have hh := hw.held a
    rw [hx] at hh
    exact hstage ▸ hh
  rcases hh with hn | ⟨row, hi, hv, hwriting⟩
  · -- there was no previous version, and nothing has been written
    have hcommitted : (s.prompts.commit a).committed = s.prompts.committed := hn.view
    refine ⟨hw.consistent.commit a, ?_, ?_, held_update Table.untouched_rollback fun b hb => ?_⟩
    · rw [hcommitted, hn.2, List.append_nil]
      exact hw.replays
    · rw [hn.2, List.append_nil]
      exact hw.numbered
    · obtain ⟨hu, hi⟩ := s.prompts.rollback_work_of_ne hb
      exact (hw.held b).congr hcommitted hu hi
  · -- its number is the next one
    have hview : s.prompts.view a = record s.prompts.committed row :=
      hwriting.view hw.consistent hi fun c hc ht => hw.version_lt hv hc ht
    refine ⟨hw.consistent.commit a, ?_, ?_, held_update Table.untouched_rollback fun b hb => ?_⟩
    · rw [hi, history_append, ← hw.replays]
      exact hview
    · rw [hi]
      refine .snoc s.created row hw.numbered ?_
      rw [hv, count, hw.replays, versionsOf_history]
    · have hh := hw.held b
      cases htx : s.txs b with
      | none =>
        rw [htx] at hh
        obtain ⟨hu', hi'⟩ := s.prompts.rollback_work_of_ne hb
        exact ⟨fun k => (congrFun hu' k).trans (hh.1 k), hi'.trans hh.2⟩
      | some y =>
        rw [htx] at hh
        exact working_commit hw hi hv hview hb hh

theorem wf_step {e : Event} (hw : Wf s) (ht : step s e = some t) : Wf t := by
  cases e with
  | begin => exact wf_begin hw ht
  | step => exact wf_statement hw ht
  | commit => exact wf_commit hw ht
  | rollback => exact wf_rollback hw ht

theorem created_step {e : Event} (ht : step s e = some t) : s.created <+: t.created := by
  cases e with
  | begin =>
    simp only [step, Option.ite_none_right_eq_some, Option.some.injEq] at ht
    obtain ⟨-, rfl⟩ := ht
    exact List.prefix_rfl
  | step =>
    simp only [step, Option.bind_eq_bind, Option.bind_eq_some_iff, Option.some.injEq,
      Prod.exists] at ht
    obtain ⟨_, _, _, _, _, rfl⟩ := ht
    exact List.prefix_rfl
  | commit =>
    simp only [step, Option.bind_eq_bind, Option.bind_eq_some_iff, Option.ite_none_right_eq_some,
      Option.some.injEq] at ht
    obtain ⟨_, _, _, rfl⟩ := ht
    exact List.prefix_append _ _
  | rollback =>
    simp only [step, Option.ite_none_left_eq_some, Option.some.injEq] at ht
    obtain ⟨-, rfl⟩ := ht
    exact List.prefix_rfl

/-- What a step does to the committed rows: none of them loses anything but its flag. -/
def KeepsVersions (s : State) (_ : Event) (t : State) : Prop :=
  s.prompts.committed.map AdminPromptVersion.fixed <+: t.prompts.committed.map AdminPromptVersion.fixed

theorem keepsVersions_step {e : Event} (hw : Wf s) (ht : step s e = some t) :
    KeepsVersions s e t := by
  unfold KeepsVersions
  rw [hw.replays, (wf_step hw ht).replays, fixed_history, fixed_history]
  exact (created_step ht).map _

end Step

/-- In every run the committed rows are a version history, and no step changes the content of
a committed version. -/
theorem version_history (es : List Event) :
    Always step (fun s => Versions s.created s.prompts.committed) empty es ∧
      AlwaysStep step KeepsVersions empty es := by
  refine ⟨?_, ?_⟩
  · refine (always_of_step (fun _ _ _ hw ht => wf_step hw ht) wf_empty es).mono fun s hw => ?_
    rw [hw.replays]
    exact versions_history hw.numbered
  · exact alwaysStep_of_step
      (fun _ _ _ hw ht => ⟨wf_step hw ht, keepsVersions_step hw ht⟩) wf_empty es

/-- A first version, and two transactions that both go on from it. -/
def together : List Event :=
  [.begin 0 (.createPromptVersion ⟨"reflection", "first prompt", true⟩) 0,
    .step 0 1 default, .step 0 1 default, .step 0 1 default, .commit 0,
    .begin 1 (.createNextPromptVersion 1 "second prompt") 1,
    .begin 2 (.createPromptVersion ⟨"reflection", "third prompt", true⟩) 1,
    .step 1 2 default, .step 1 2 default, .step 2 3 default, .step 1 2 default,
    .step 1 2 ("reflection", 1), .step 2 3 default, .step 1 2 default, .commit 1,
    .step 2 3 ("reflection", 1)]

/-- The second one to insert its version cannot. -/
example : (run step empty together).map (fun s =>
    (s.prompts.committed.map fun row => (row.version, row.activeFlag),
      (step s (.step 2 3 default)).isNone)) = some ([(1, false), (2, true)], true) := by
  decide

end LiberNovus.Admin.PromptVersions

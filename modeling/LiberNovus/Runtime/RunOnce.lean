import LiberNovus.Foundation.Runs
import Mathlib.Data.Int.Order.Basic
import Mathlib.Data.List.Perm.Basic

/-! The executions of one poll. `run_once` cuts the acquired jobs into batches, and `gather` waits
until every execution of a batch has ended before the next batch is started. Inside a batch the
executions interleave in any way, and each of them may raise.

Proved: a run comes to its end in every interleaving, and the runs that have ended are one part
after another for the batches, in each of which every job is passed to the executor once. -/

namespace LiberNovus.Runtime.RunOnce

open Runs

variable {J : Type*} [DecidableEq J]

/-- How far a call of `_execute` has got. Opening the transaction reaches no database, so that
nothing can be raised before the executor is called. -/
inductive Execution where
  | created | called | returned | raised
  deriving DecidableEq, Repr

/-- The execution has ended, one way or the other. -/
def Execution.isEnded : Execution → Bool
  | .returned | .raised => true
  | .created | .called => false

/-- What happens in a call of `run_once` after the acquisition: an execution of the batch passes
its job to the executor, or it ends, and `gather` returns. -/
inductive Event (J : Type*) where
  | call (i : ℕ) (job : J)
  | finish (i : ℕ) (raised : Bool)
  | gathered
  deriving DecidableEq, Repr

/-- Where a call of `run_once` is: in the `gather` of the batch that starts at `offset`, with
`processed` as it was before, or behind its `return`. -/
inductive State (J : Type*) where
  | gathering (offset : ℕ) (batch : List (J × Execution)) (processed : ℕ)
  | returned (processed : ℕ)
  deriving DecidableEq, Repr

section Step

variable (jobs : List J) (maxConcurrency : ℤ)

/-- `self.max_concurrency`. -/
def width : ℕ := (max 1 maxConcurrency).toNat

/-- `jobs[offset : offset + self.max_concurrency]`. -/
def batchAt (offset : ℕ) : List J := (jobs.drop offset).take (width maxConcurrency)

/-- The loop comes to an offset: it gathers the batch there, or it has come to its end. -/
def loop (offset processed : ℕ) : State J :=
  if offset < jobs.length then
    .gathering offset ((batchAt jobs maxConcurrency offset).map (·, .created)) processed
  else .returned processed

/-- `processed = 0`, and the loop. -/
def start : State J := loop jobs maxConcurrency 0 0

def step : State J → Event J → Option (State J)
  | .returned _, _ => none
  | .gathering offset batch processed, .call i job =>
    if batch[i]? = some (job, .created) then
      some (.gathering offset (batch.set i (job, .called)) processed)
    else none
  | .gathering offset batch processed, .finish i raised =>
    match batch[i]? with
    | some (job, .called) =>
      some (.gathering offset (batch.set i (job, if raised then .raised else .returned)) processed)
    | _ => none
  | .gathering offset batch processed, .gathered =>
    if batch.all (·.2.isEnded) then
      some (loop jobs maxConcurrency (offset + width maxConcurrency)
        (processed + batch.countP (·.2 = .returned)))
    else none

/-- The batches from an offset on, the way the loop comes to them. -/
def batchesFrom (offset : ℕ) : List (List J) :=
  if offset < jobs.length then
    batchAt jobs maxConcurrency offset :: batchesFrom (offset + width maxConcurrency)
  else []
termination_by jobs.length - offset
decreasing_by simp only [width]; omega

end Step

variable {jobs : List J} {maxConcurrency : ℤ}

omit [DecidableEq J] in
theorem width_pos : 0 < width maxConcurrency := by
  simp only [width]
  omega

/-! ### The batches -/

section Batches

omit [DecidableEq J]

theorem flatten_batchesFrom (offset : ℕ) :
    (batchesFrom jobs maxConcurrency offset).flatten = jobs.drop offset := by
  induction offset using batchesFrom.induct jobs maxConcurrency with
  | case1 offset _ ih =>
    rw [batchesFrom, if_pos ‹_›, List.flatten_cons, ih, batchAt, ← List.drop_drop,
      List.take_append_drop]
  | case2 offset _ =>
    rw [batchesFrom, if_neg ‹_›, List.drop_eq_nil_of_le (by omega), List.flatten_nil]

theorem length_of_mem_batchesFrom {offset : ℕ} {batch : List J}
    (h : batch ∈ batchesFrom jobs maxConcurrency offset) :
    0 < batch.length ∧ batch.length ≤ width maxConcurrency := by
  induction offset using batchesFrom.induct jobs maxConcurrency with
  | case1 offset _ ih =>
    rw [batchesFrom, if_pos ‹_›, List.mem_cons] at h
    rcases h with rfl | h
    · have : 0 < width maxConcurrency := width_pos
      rw [batchAt, List.length_take, List.length_drop]
      omega
    · exact ih h
  | case2 offset _ =>
    rw [batchesFrom, if_neg ‹_›] at h
    cases h

end Batches

/-! ### Inside a batch -/

/-- The calls among the events, by the number in the batch and the job. -/
def Event.called : Event J → Option (J × ℕ)
  | .call i job => some (job, i)
  | _ => none

/-- The executions that end, by their number. -/
def Event.ended : Event J → Option ℕ
  | .finish i _ => some i
  | _ => none

/-- The event is the end of an execution that did not raise. -/
def Event.isReturn : Event J → Bool
  | .finish _ raised => !raised
  | _ => false

/-- The part of a run in which a batch is executed: every job of it is passed to the executor
once, and every one of these executions ends. -/
structure Gathers (batch : List J) (part : List (Event J)) : Prop where
  calls : (part.filterMap Event.called).Perm batch.zipIdx
  ends : (part.filterMap Event.ended).Perm (List.range batch.length)

section Batch

variable {offset processed i : ℕ} {batch : List (J × Execution)}

/-- What an execution has still to do: its call, and its end. -/
def uncalled : (J × Execution) × ℕ → Option (J × ℕ)
  | ((job, .created), i) => some (job, i)
  | _ => none

def unended (x : (J × Execution) × ℕ) : Option ℕ := if x.1.2.isEnded then none else some x.2

omit [DecidableEq J]

/-- A change of one execution. -/
theorem zipIdx_set {x : J × Execution} (h : batch[i]? = some x) (y : J × Execution) :
    ∃ l r, batch.zipIdx = l ++ (x, i) :: r ∧ (batch.set i y).zipIdx = l ++ (y, i) :: r := by
  obtain ⟨hi, rfl⟩ := List.getElem?_eq_some_iff.mp h
  have hlen : min i batch.length = i := by omega
  refine ⟨(batch.take i).zipIdx, (batch.drop (i + 1)).zipIdx (i + 1), ?_, ?_⟩
  · conv_lhs => rw [← List.take_append_drop i batch, List.drop_eq_getElem_cons hi]
    simp only [List.zipIdx_append, List.zipIdx_cons, List.length_take, hlen, Nat.zero_add]
  · rw [List.set_eq_take_append_cons_drop, if_pos hi]
    simp only [List.zipIdx_append, List.zipIdx_cons, List.length_take, hlen, Nat.zero_add]

theorem uncalled_created (batch : List J) :
    (batch.map (·, Execution.created)).zipIdx.filterMap uncalled = batch.zipIdx := by
  rw [List.zipIdx_map, List.filterMap_map]
  exact List.filterMap_some

theorem unended_created (batch : List J) :
    (batch.map (·, Execution.created)).zipIdx.filterMap unended = List.range batch.length := by
  rw [List.zipIdx_map, List.filterMap_map]
  have hsnd : (unended ∘ Prod.map (·, Execution.created) id : J × ℕ → Option ℕ) =
    some ∘ Prod.snd := rfl
  rw [hsnd, List.filterMap_eq_map, List.zipIdx_map_snd, List.range_eq_range']

/-- The executions have all ended when none of them has an end before it. -/
theorem all_isEnded_iff :
    batch.all (·.2.isEnded) = true ↔ batch.zipIdx.filterMap unended = [] := by
  rw [List.filterMap_eq_nil_iff, List.all_eq_true]
  constructor
  · intro h x hx
    exact if_pos (h _ (List.fst_mem_of_mem_zipIdx hx))
  · intro h x hx
    obtain ⟨i, hi, rfl⟩ := List.mem_iff_getElem.mp hx
    by_contra hne
    have := h (batch[i], i) (List.mk_mem_zipIdx_iff_getElem?.mpr (List.getElem?_eq_getElem hi))
    simp [unended, hne] at this

/-- An execution that has ended has called the executor. -/
theorem uncalled_of_all_isEnded (h : batch.all (·.2.isEnded) = true) :
    batch.zipIdx.filterMap uncalled = [] := by
  rw [List.filterMap_eq_nil_iff]
  rintro ⟨⟨job, execution⟩, i⟩ hx
  have := List.all_eq_true.mp h _ (List.fst_mem_of_mem_zipIdx hx)
  cases execution <;> simp_all [uncalled, Execution.isEnded]

/-- An execution passes its job to the executor. -/
theorem set_called {job : J} (h : batch[i]? = some (job, .created)) :
    (batch.zipIdx.filterMap uncalled).Perm
        ((job, i) :: (batch.set i (job, .called)).zipIdx.filterMap uncalled) ∧
      (batch.set i (job, .called)).zipIdx.filterMap unended = batch.zipIdx.filterMap unended := by
  obtain ⟨l, r, hb, hs⟩ := zipIdx_set h (job, .called)
  rw [hb, hs]
  simp only [List.filterMap_append, List.filterMap_cons, uncalled, unended, Execution.isEnded]
  exact ⟨List.perm_middle, rfl⟩

/-- An execution ends. -/
theorem set_ended {job : J} (h : batch[i]? = some (job, .called)) {ended : Execution}
    (he : ended.isEnded = true) :
    (batch.set i (job, ended)).zipIdx.filterMap uncalled = batch.zipIdx.filterMap uncalled ∧
      (batch.zipIdx.filterMap unended).Perm
        (i :: (batch.set i (job, ended)).zipIdx.filterMap unended) := by
  obtain ⟨l, r, hb, hs⟩ := zipIdx_set h (job, ended)
  rw [hb, hs]
  have hu : uncalled ((job, ended), i) = none := by
    cases ended <;> simp_all [uncalled, Execution.isEnded]
  simp only [List.filterMap_append, List.filterMap_cons, hu, unended, he]
  exact ⟨rfl, List.perm_middle⟩

/-- The executions of the batch that have returned. -/
theorem countP_set {job : J} {before after : Execution} (h : batch[i]? = some (job, before))
    (hb : before ≠ .returned) :
    (batch.set i (job, after)).countP (·.2 = .returned) =
      batch.countP (·.2 = .returned) + if after = .returned then 1 else 0 := by
  obtain ⟨hi, hx⟩ := List.getElem?_eq_some_iff.mp h
  rw [List.countP_set hi, hx]
  simp [hb]

end Batch

/-! ### Whole runs -/

section Run

variable {offset processed n : ℕ} {batch : List (J × Execution)} {es : List (Event J)}

/-- The rest of the part in which a batch is executed, up to the return of its `gather`. -/
theorem exists_part
    (h : run (step jobs maxConcurrency) (.gathering offset batch processed) es = some (.returned n)) :
    ∃ part rest, es = part ++ .gathered :: rest ∧
      (part.filterMap Event.called).Perm (batch.zipIdx.filterMap uncalled) ∧
      (part.filterMap Event.ended).Perm (batch.zipIdx.filterMap unended) ∧
      run (step jobs maxConcurrency) (loop jobs maxConcurrency (offset + width maxConcurrency)
        (processed + (batch.countP (·.2 = .returned) + part.countP Event.isReturn))) rest =
          some (.returned n) := by
  induction es generalizing batch with
  | nil => cases h
  | cons e es ih =>
    rw [run_cons, Option.bind_eq_some_iff] at h
    obtain ⟨t, ht, h⟩ := h
    cases e with
    | call i job =>
      simp only [step, Option.ite_none_right_eq_some, Option.some.injEq] at ht
      obtain ⟨hx, rfl⟩ := ht
      obtain ⟨part, rest, rfl, hc, he, hrest⟩ := ih h
      obtain ⟨hcall, hend⟩ := set_called hx
      refine ⟨.call i job :: part, rest, rfl, ?_, ?_, ?_⟩
      · exact (hc.cons _).trans hcall.symm
      · exact hend ▸ he
      · rw [countP_set hx (by simp)] at hrest
        simpa [Event.isReturn] using hrest
    | finish i raised =>
      simp only [step] at ht
      split at ht
      · rename_i job hx
        cases ht
        obtain ⟨part, rest, rfl, hc, he, hrest⟩ := ih h
        have hended : (if raised then .raised else .returned : Execution).isEnded = true := by
          cases raised <;> rfl
        obtain ⟨hcall, hend⟩ := set_ended hx hended
        refine ⟨.finish i raised :: part, rest, rfl, ?_, ?_, ?_⟩
        · exact hcall ▸ hc
        · exact (he.cons _).trans hend.symm
        · rw [countP_set hx (by simp)] at hrest
          cases raised <;>
            simpa [Event.isReturn, Nat.add_assoc, Nat.add_comm, Nat.add_left_comm] using hrest
      · cases ht
    | gathered =>
      simp only [step, Option.ite_none_right_eq_some, Option.some.injEq] at ht
      obtain ⟨hall, rfl⟩ := ht
      refine ⟨[], es, rfl, ?_, ?_, h⟩
      · rw [uncalled_of_all_isEnded hall]; rfl
      · rw [all_isEnded_iff.mp hall]; rfl

/-- A run that has ended consists of one part for each batch. -/
theorem exists_parts (h : run (step jobs maxConcurrency) (loop jobs maxConcurrency offset processed) es =
      some (.returned n)) :
    ∃ parts, es = (parts.map (· ++ [.gathered])).flatten ∧
      List.Forall₂ Gathers (batchesFrom jobs maxConcurrency offset) parts ∧
      n = processed + es.countP Event.isReturn := by
  induction offset using batchesFrom.induct jobs maxConcurrency generalizing processed es with
  | case1 offset hlt ih =>
    rw [loop, if_pos hlt] at h
    obtain ⟨part, rest, rfl, hc, he, hrest⟩ := exists_part h
    obtain ⟨parts, rfl, hparts, rfl⟩ := ih hrest
    refine ⟨part :: parts, by simp, ?_, ?_⟩
    · rw [batchesFrom, if_pos hlt]
      rw [uncalled_created] at hc
      rw [unended_created] at he
      exact .cons ⟨hc, he⟩ hparts
    · simp [List.countP_map, Nat.add_assoc, Event.isReturn]
  | case2 offset hlt =>
    rw [loop, if_neg hlt] at h
    rw [batchesFrom, if_neg hlt]
    cases es with
    | nil => cases h; exact ⟨[], rfl, .nil, rfl⟩
    | cons => cases h

/-! ### The end of a run -/

/-- A bound for the events that can still happen. -/
def left (jobs : List J) (maxConcurrency : ℤ) : State J → ℕ
  | .returned _ => 0
  | .gathering offset batch _ =>
    (batch.zipIdx.filterMap uncalled).length + (batch.zipIdx.filterMap unended).length + 1 +
      3 * (jobs.length - (offset + width maxConcurrency))

omit [DecidableEq J] in
theorem left_loop (offset processed : ℕ) :
    left jobs maxConcurrency (loop jobs maxConcurrency offset processed) ≤
      3 * (jobs.length - offset) := by
  rw [loop]
  split
  · have : 0 < width maxConcurrency := width_pos
    rw [left, uncalled_created, unended_created, List.length_zipIdx, List.length_range, batchAt,
      List.length_take, List.length_drop]
    omega
  · exact Nat.zero_le _

theorem left_step {s t : State J} {e : Event J} (h : step jobs maxConcurrency s e = some t) :
    left jobs maxConcurrency t + 1 ≤ left jobs maxConcurrency s := by
  cases s with
  | returned => cases h
  | gathering offset batch processed =>
    cases e with
    | call i job =>
      simp only [step, Option.ite_none_right_eq_some, Option.some.injEq] at h
      obtain ⟨hx, rfl⟩ := h
      obtain ⟨hcall, hend⟩ := set_called hx
      have := hcall.length_eq
      simp only [left, hend, List.length_cons] at this ⊢
      omega
    | finish i raised =>
      simp only [step] at h
      split at h
      · rename_i job hx
        cases h
        have hended : (if raised then .raised else .returned : Execution).isEnded = true := by
          cases raised <;> rfl
        obtain ⟨hcall, hend⟩ := set_ended hx hended
        have := hend.length_eq
        simp only [left, hcall, List.length_cons] at this ⊢
        omega
      · cases h
    | gathered =>
      simp only [step, Option.ite_none_right_eq_some, Option.some.injEq] at h
      obtain ⟨-, rfl⟩ := h
      have hloop : left jobs maxConcurrency (loop jobs maxConcurrency (offset + width maxConcurrency)
        (processed + batch.countP (·.2 = .returned))) ≤ _ := left_loop _ _
      have hleft : left jobs maxConcurrency (.gathering offset batch processed) =
        _ + 1 + 3 * (jobs.length - (offset + width maxConcurrency)) := rfl
      omega

/-- While `run_once` has not returned, something can happen. -/
theorem exists_step (offset : ℕ) (batch : List (J × Execution)) (processed : ℕ) :
    ∃ e t, step jobs maxConcurrency (.gathering offset batch processed) e = some t := by
  by_cases hall : batch.all (·.2.isEnded) = true
  · exact ⟨.gathered, _, if_pos hall⟩
  · simp only [List.all_eq_true, not_forall] at hall
    obtain ⟨⟨job, execution⟩, hmem, hended⟩ := hall
    obtain ⟨i, hi⟩ := List.mem_iff_getElem?.mp hmem
    cases execution with
    | created => exact ⟨.call i job, _, if_pos hi⟩
    | called => exact ⟨.finish i false, _, by simp only [step, hi]; rfl⟩
    | returned => exact absurd rfl hended
    | raised => exact absurd rfl hended

/-- Every run is short, -/
theorem left_run {s t : State J} (h : run (step jobs maxConcurrency) s es = some t) :
    left jobs maxConcurrency t + es.length ≤ left jobs maxConcurrency s := by
  induction es generalizing s with
  | nil => cases h; exact Nat.le_refl _
  | cons e es ih =>
    rw [run_cons, Option.bind_eq_some_iff] at h
    obtain ⟨u, hu, h⟩ := h
    have := left_step hu
    have := ih h
    rw [List.length_cons]
    omega

/-- and can be continued to the return. -/
theorem exists_return (s : State J) :
    ∃ fs n, run (step jobs maxConcurrency) s fs = some (.returned n) := by
  induction hk : left jobs maxConcurrency s using Nat.strongRecOn generalizing s with
  | _ k ih =>
    cases s with
    | returned n => exact ⟨[], n, rfl⟩
    | gathering offset batch processed =>
      obtain ⟨e, t, ht⟩ : ∃ e t, step jobs maxConcurrency (.gathering offset batch processed) e =
        some t := exists_step offset batch processed
      obtain ⟨fs, n, hfs⟩ := ih _ (hk ▸ left_step ht) t rfl
      exact ⟨e :: fs, n, by rw [run_cons, ht]; exact hfs⟩

/-- However the executions interleave and whichever of them raise, a call of `run_once` returns
after at most three events a job. Its run has one part for each batch, one after another: in it
every job of the batch is passed to the executor once and every execution ends, before `gather`
returns. The batches are the acquired jobs in their order, none of them is longer than the
concurrency, and the executions that did not raise are counted. -/
theorem run_once_gathers (jobs : List J) (maxConcurrency : ℤ) (es : List (Event J)) (s : State J)
    (h : run (step jobs maxConcurrency) (start jobs maxConcurrency) es = some s) :
    es.length ≤ 3 * jobs.length ∧
      (∃ fs n, run (step jobs maxConcurrency) s fs = some (.returned n)) ∧
      ∀ n, s = .returned n → ∃ batches parts,
        batches.flatten = jobs ∧
        (∀ batch ∈ batches, 0 < batch.length ∧ (batch.length : ℤ) ≤ max 1 maxConcurrency) ∧
        es = (parts.map (· ++ [Event.gathered])).flatten ∧
        List.Forall₂ Gathers batches parts ∧
        n = es.countP Event.isReturn := by
  refine ⟨?_, exists_return s, ?_⟩
  · have hstart : left jobs maxConcurrency (start jobs maxConcurrency) ≤ 3 * (jobs.length - 0) :=
      left_loop 0 0
    have := left_run h
    omega
  · rintro n rfl
    obtain ⟨parts, hes, hparts, hn⟩ := exists_parts h
    refine ⟨batchesFrom jobs maxConcurrency 0, parts, flatten_batchesFrom 0, ?_, hes, hparts, ?_⟩
    · intro batch hbatch
      obtain ⟨hpos, hle⟩ := length_of_mem_batchesFrom hbatch
      refine ⟨hpos, ?_⟩
      rw [width] at hle
      omega
    · rw [hn, Nat.zero_add]

/-- Two executions of three jobs at once, the first of which raises. -/
theorem three_jobs_gathered :
    ∃ batches parts : List (List _), batches.flatten = [10, 20, 30] ∧
      List.Forall₂ Gathers batches parts := by
  have h := run_once_gathers [10, 20, 30] 2
    [.call 1 20, .call 0 10, .finish 0 true, .finish 1 false, .gathered,
      .call 0 30, .finish 0 false, .gathered] (.returned 2) (by decide)
  obtain ⟨batches, parts, hflat, -, -, hparts, -⟩ := h.2.2 2 rfl
  exact ⟨batches, parts, hflat, hparts⟩

end Run

end LiberNovus.Runtime.RunOnce

import Mathlib.Data.Nat.Notation
import Mathlib.Logic.Function.Basic

/-! Runs of a labelled transition system. `step s e` is the state after the event
`e`, or `none` when `e` is not enabled in `s`; a run is a list of events. A run is
guarded by a condition when each event that happens meets it in the state in which it
happens, and a property holds always along a run when it holds in the first state
and in every state the run passes through. -/

namespace LiberNovus.Runs

variable {σ ε : Type*} {step : σ → ε → Option σ}

/-- The state at the end of a run. -/
def run (step : σ → ε → Option σ) : σ → List ε → Option σ
  | s, [] => some s
  | s, e :: es => (step s e).bind (run step · es)

/-- Every event of the run that happens meets `G` in the state in which it happens. -/
def Guarded (step : σ → ε → Option σ) (G : σ → ε → Prop) : σ → List ε → Prop
  | _, [] => True
  | s, e :: es => ∀ t, step s e = some t → G s e ∧ Guarded step G t es

/-- `P` holds in every state of the run, the first one included. -/
def Always (step : σ → ε → Option σ) (P : σ → Prop) : σ → List ε → Prop
  | s, [] => P s
  | s, e :: es => P s ∧ ∀ t, step s e = some t → Always step P t es

/-- `Q` holds of every step of the run, as a relation between the states before
and after it. -/
def AlwaysStep (step : σ → ε → Option σ) (Q : σ → ε → σ → Prop) : σ → List ε → Prop
  | _, [] => True
  | s, e :: es => ∀ t, step s e = some t → Q s e t ∧ AlwaysStep step Q t es

@[simp] theorem run_nil (s : σ) : run step s [] = some s := rfl

@[simp] theorem run_cons (s : σ) (e : ε) (es : List ε) :
    run step s (e :: es) = (step s e).bind (run step · es) := rfl

theorem run_append (s : σ) (es fs : List ε) :
    run step s (es ++ fs) = (run step s es).bind (run step · fs) := by
  induction es generalizing s with
  | nil => rfl
  | cons e es ih =>
    simp only [List.cons_append, run_cons, Option.bind_assoc]
    exact congrArg _ (funext ih)

theorem Always.head {P : σ → Prop} {s : σ} {es : List ε} (h : Always step P s es) : P s := by
  cases es with
  | nil => exact h
  | cons => exact h.1

theorem Always.mono {P Q : σ → Prop} (hPQ : ∀ s, P s → Q s) {s : σ} {es : List ε}
    (h : Always step P s es) : Always step Q s es := by
  induction es generalizing s with
  | nil => exact hPQ s h
  | cons e es ih => exact ⟨hPQ s h.1, fun t ht => ih (h.2 t ht)⟩

/-- Events that are each what the guard asks for. -/
theorem guarded_of_forall {G : ε → Prop} {es : List ε} (h : ∀ e ∈ es, G e) (s : σ) :
    Guarded step (fun _ => G) s es := by
  induction es generalizing s with
  | nil => trivial
  | cons e es ih =>
    exact fun t _ => ⟨h e List.mem_cons_self, ih (fun e he => h e (List.mem_cons_of_mem _ he)) t⟩

/-- An invariant that every admissible step preserves holds along every guarded run. -/
theorem always_of_guarded {G : σ → ε → Prop} {I : σ → Prop}
    (hstep : ∀ s e t, I s → G s e → step s e = some t → I t) {s : σ} {es : List ε}
    (hs : I s) (hg : Guarded step G s es) : Always step I s es := by
  induction es generalizing s with
  | nil => exact hs
  | cons e es ih =>
    exact ⟨hs, fun t ht => ih (hstep s e t hs (hg t ht).1 ht) (hg t ht).2⟩

/-- An invariant that every step preserves holds along every run. -/
theorem always_of_step {I : σ → Prop} (hstep : ∀ s e t, I s → step s e = some t → I t)
    {s : σ} (hs : I s) (es : List ε) : Always step I s es := by
  induction es generalizing s with
  | nil => exact hs
  | cons e es ih => exact ⟨hs, fun t ht => ih (hstep s e t hs ht)⟩

/-- A step relation that follows from the invariant and the guard holds of every
step of a guarded run. -/
theorem alwaysStep_of_guarded {G : σ → ε → Prop} {I : σ → Prop} {Q : σ → ε → σ → Prop}
    (hstep : ∀ s e t, I s → G s e → step s e = some t → I t ∧ Q s e t) {s : σ} {es : List ε}
    (hs : I s) (hg : Guarded step G s es) : AlwaysStep step Q s es := by
  induction es generalizing s with
  | nil => trivial
  | cons e es ih =>
    intro t ht
    obtain ⟨hi, hq⟩ := hstep s e t hs (hg t ht).1 ht
    exact ⟨hq, ih hi (hg t ht).2⟩

/-- A step relation that follows from the invariant holds of every step. -/
theorem alwaysStep_of_step {I : σ → Prop} {Q : σ → ε → σ → Prop}
    (hstep : ∀ s e t, I s → step s e = some t → I t ∧ Q s e t) {s : σ} (hs : I s) (es : List ε) :
    AlwaysStep step Q s es := by
  induction es generalizing s with
  | nil => trivial
  | cons e es ih =>
    intro t ht
    obtain ⟨hi, hq⟩ := hstep s e t hs ht
    exact ⟨hq, ih hi⟩

/-- A step relation that says no more than the guard holds of every step exactly when the run
is guarded. -/
theorem alwaysStep_iff_guarded {G : σ → ε → Prop} {Q : σ → ε → σ → Prop}
    (hstep : ∀ s e t, step s e = some t → (Q s e t ↔ G s e)) {s : σ} {es : List ε} :
    AlwaysStep step Q s es ↔ Guarded step G s es := by
  induction es generalizing s with
  | nil => exact Iff.rfl
  | cons e es ih => exact forall₂_congr fun t ht => and_congr (hstep s e t ht) ih

theorem AlwaysStep.mono {Q Q' : σ → ε → σ → Prop} (hQ : ∀ s e t, Q s e t → Q' s e t) {s : σ}
    {es : List ε} (h : AlwaysStep step Q s es) : AlwaysStep step Q' s es := by
  induction es generalizing s with
  | nil => trivial
  | cons e es ih => exact fun t ht => ⟨hQ s e t (h t ht).1, ih (h t ht).2⟩

/-- What holds of every step of a run holds of every step of its later part. -/
theorem AlwaysStep.suffix {Q : σ → ε → σ → Prop} {s t : σ} {es fs : List ε}
    (h : AlwaysStep step Q s (es ++ fs)) (hr : run step s es = some t) : AlwaysStep step Q t fs := by
  induction es generalizing s with
  | nil => cases hr; exact h
  | cons e es ih =>
    rw [run_cons, Option.bind_eq_some_iff] at hr
    obtain ⟨u, hu, hr⟩ := hr
    exact ih (h u hu).2 hr

/-- A property that every step of the run keeps holds for ever after. -/
theorem AlwaysStep.always {Q : σ → ε → σ → Prop} {P : σ → Prop} (hP : ∀ s e t, Q s e t → P s → P t)
    {s : σ} {es : List ε} (h : AlwaysStep step Q s es) (hs : P s) : Always step P s es := by
  induction es generalizing s with
  | nil => exact hs
  | cons e es ih => exact ⟨hs, fun t ht => ih (h t ht).2 (hP s e t (h t ht).1 hs)⟩

/-- A run whose states all have `P` is guarded, when an event that breaks the
guard leads from a state with `P` to one without. -/
theorem guarded_of_always {G : σ → ε → Prop} {I P : σ → Prop}
    (hstep : ∀ s e t, I s → step s e = some t → I t)
    (hbreak : ∀ s e t, I s → P s → step s e = some t → P t → G s e) {s : σ} {es : List ε}
    (hs : I s) (h : Always step P s es) : Guarded step G s es := by
  induction es generalizing s with
  | nil => trivial
  | cons e es ih =>
    exact fun t ht => ⟨hbreak s e t hs h.1 ht (h.2 t ht).head, ih (hstep s e t hs ht) (h.2 t ht)⟩

/-- A guarded run is recognised by evaluating it. -/
instance decidableGuarded {G : σ → ε → Prop} [∀ s e, Decidable (G s e)] :
    ∀ (s : σ) (es : List ε), Decidable (Guarded step G s es)
  | _, [] => isTrue trivial
  | s, e :: es => match h : step s e with
    | none => isTrue (by simp [Guarded, h])
    | some t =>
      have := decidableGuarded (G := G) t es
      decidable_of_iff (G s e ∧ Guarded step G t es) (by simp [Guarded, h])

instance decidableAlways {P : σ → Prop} [DecidablePred P] :
    ∀ (s : σ) (es : List ε), Decidable (Always step P s es)
  | s, [] => inferInstanceAs (Decidable (P s))
  | s, e :: es => match h : step s e with
    | none => decidable_of_iff (P s) (by simp [Always, h])
    | some t =>
      have := decidableAlways (P := P) t es
      decidable_of_iff (P s ∧ Always step P t es) (by simp [Always, h])

theorem Always.of_run {P : σ → Prop} {s t : σ} {es : List ε} (h : Always step P s es)
    (hr : run step s es = some t) : P t := by
  induction es generalizing s with
  | nil => cases hr; exact h
  | cons e es ih =>
    rw [run_cons, Option.bind_eq_some_iff] at hr
    obtain ⟨u, hu, hr⟩ := hr
    exact ih (h.2 u hu) hr

/-- Whichever of the events `E` happen, the run comes to a state with `P`: until then some of
them can happen, and none of them goes on for ever. -/
inductive Inevitable (step : σ → ε → Option σ) (E : ε → Prop) (P : σ → Prop) : σ → Prop where
  | now {s : σ} (h : P s) : Inevitable step E P s
  | later {s : σ} (hnext : ∃ e t, E e ∧ step s e = some t)
      (hall : ∀ e t, E e → step s e = some t → Inevitable step E P t) : Inevitable step E P s

/-- A measure that every step before `P` lowers. -/
theorem inevitable_of_measure {E : ε → Prop} {P I : σ → Prop} (measure : σ → ℕ)
    (henabled : ∀ s, I s → ¬ P s → ∃ e t, E e ∧ step s e = some t)
    (hstep : ∀ s e t, I s → ¬ P s → E e → step s e = some t → I t ∧ measure t < measure s)
    {s : σ} (hs : I s) : Inevitable step E P s := by
  induction hn : measure s using Nat.strongRecOn generalizing s with
  | _ n ih =>
    by_cases hP : P s
    · exact .now hP
    · refine .later (henabled s hs hP) fun e t he ht => ?_
      obtain ⟨hI, hlt⟩ := hstep s e t hs hP he ht
      exact ih (measure t) (hn ▸ hlt) hI rfl

/-- A measure that never grows, and that shrinks again and again until `P` holds. -/
theorem exists_of_progress {P : ℕ → Prop} (measure : ℕ → ℕ) (hle : ∀ n, measure (n + 1) ≤ measure n)
    (hlt : ∀ n, ¬ P n → ∃ m, n ≤ m ∧ measure (m + 1) < measure m) (n : ℕ) : ∃ m, n ≤ m ∧ P m := by
  have hmono : ∀ n m, n ≤ m → measure m ≤ measure n := fun n m h => by
    induction h with
    | refl => exact Nat.le_refl _
    | step _ ih => exact Nat.le_trans (hle _) ih
  induction hk : measure n using Nat.strongRecOn generalizing n with
  | _ k ih =>
    by_cases hP : P n
    · exact ⟨n, Nat.le_refl n, hP⟩
    · obtain ⟨m, hnm, hm⟩ := hlt n hP
      have hless : measure (m + 1) < k := hk ▸ Nat.lt_of_lt_of_le hm (hmono n m hnm)
      obtain ⟨l, hl, hPl⟩ := ih (measure (m + 1)) hless (m + 1) rfl
      exact ⟨l, Nat.le_trans (Nat.le_succ_of_le hnm) hl, hPl⟩

end LiberNovus.Runs

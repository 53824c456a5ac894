import LiberNovus.Analysis.Transaction

/-! The latest flag while transactions are open. A transaction that has stored its row
holds the index slot of the thread and sees no other latest row of it, and its pending
versions differ from the committed rows in cleared flags of that thread only. -/

namespace LiberNovus.Analysis

open Rows ReadCommitted

/-- The `UPDATE` that clears the flags has run. -/
def Phase.Writing : Phase → Prop
  | .cleared _ | .inserted _ | .persisted _ | .failed => True
  | _ => False

/-- The row that has passed the target check. -/
def Phase.checked : Phase → Option SessionAnalysis
  | .clearing analysis _ => some analysis
  | .cleared analysis => some analysis
  | .inserted analysis => some analysis
  | .persisted analysis => some analysis
  | _ => none

theorem Phase.checked_of_stored {p : Phase} {analysis : SessionAnalysis}
    (h : p.stored = some analysis) : p.checked = some analysis := by
  cases p <;> simp_all [Phase.stored, Phase.checked]

/-- The assembled row goes to the thread as its latest one, and after the check to the
session of the thread. -/
structure Persist.Aimed (x : Persist) : Prop where
  row : ∀ r ∈ x.phase.row, r.threadId = x.prepared.thread.id ∧ r.isLatest = true
  checked : ∀ r ∈ x.phase.checked, r.sessionId = x.prepared.thread.sessionId

/-- Pending version `v` of row `c`: the row, or the row with its flag cleared. -/
def Clears {τ : Type*} (work : τ → Option Persist) (a : τ) (c v : SessionAnalysis) : Prop :=
  v = c ∨ v = c.superseded ∧ ∃ x ∈ work a, x.phase.Writing ∧ x.prepared.thread.id = c.threadId

/-- Transaction `a` holds the slot of the thread of `r`, and sees no other latest row
there. -/
def Exclusive {τ : Type*} [DecidableEq τ] (T : Table τ Uuid Uuid SessionAnalysis) (a : τ)
    (r : SessionAnalysis) : Prop :=
  T.claim r.threadId = some a ∧ ∀ y ∈ T.view a, y.LatestOf r.threadId → y = r

theorem slot_eq_some {r : SessionAnalysis} {t : Uuid} : slot r = some t ↔ r.LatestOf t := by
  have hs : slot r = if r.isLatest then some r.threadId else none := rfl
  rw [hs, SessionAnalysis.LatestOf]
  split <;> simp_all

theorem Persist.Aimed.step {τ : Type*} [DecidableEq τ] {db db' : Tables τ} {a : τ} {id : Uuid}
    {now : Time} {x x' : Persist} (ha : x.Aimed) (h : x.step db a id now = some (db', x')) :
    x'.Aimed ∧ (x.phase.Writing → x'.phase.Writing) := by
  unfold Persist.step at h
  split at h
  · next hp =>
    cases h
    refine ⟨⟨?_, by simp [Persist.advance, Phase.checked]⟩, by simp [hp, Phase.Writing]⟩
    rintro r ⟨⟩
    exact ⟨rfl, rfl⟩
  · next r hp =>
    have hrow := ha.row
    simp only [hp, Phase.row] at hrow
    split at h <;> cases h
    · exact ⟨⟨by simp [Persist.advance, Phase.row], by simp [Persist.advance, Phase.checked]⟩,
        by simp [hp, Phase.Writing]⟩
    · next hcheck =>
      simp only [not_or, not_not] at hcheck
      refine ⟨⟨hrow, ?_⟩, by simp [hp, Phase.Writing]⟩
      rintro _ ⟨⟩
      exact hcheck.2
  · next r latest hp =>
    have hrow := ha.row
    have hchecked := ha.checked
    simp only [hp, Phase.row, Phase.checked] at hrow hchecked
    split at h <;> cases h
    exact ⟨⟨hrow, hchecked⟩, fun _ => trivial⟩
  · next r hp =>
    have hrow := ha.row
    have hchecked := ha.checked
    simp only [hp, Phase.row, Phase.checked] at hrow hchecked
    split at h
    · cases h
    · split at h <;> cases h
      · exact ⟨⟨by simp [Persist.advance, Phase.row], by simp [Persist.advance, Phase.checked]⟩,
          fun _ => trivial⟩
      · exact ⟨⟨hrow, hchecked⟩, fun _ => trivial⟩
  · next r hp =>
    have hrow := ha.row
    have hchecked := ha.checked
    simp only [hp, Phase.row, Phase.checked] at hrow hchecked
    split at h <;> cases h
    exact ⟨⟨hrow, hchecked⟩, fun _ => trivial⟩
  all_goals cases h

section Exclusive

variable {τ : Type*} [DecidableEq τ] {T : Table τ Uuid Uuid SessionAnalysis}
  {work : τ → Option Persist} {a b : τ} {r r' c v : SessionAnalysis}

omit [DecidableEq τ] in
/-- A latest version is the committed row itself. -/
theorem Clears.eq (h : Clears work a c v) (hv : v.isLatest = true) : v = c := by
  rcases h with rfl | ⟨rfl, -⟩
  · rfl
  · cases hv

omit [DecidableEq τ] in
/-- What a transaction sees: committed rows, some of them with their flag cleared, and
its own row. -/
theorem mem_view (hc : T.Consistent) (he : T.Evolves (Clears work)) (hv : v ∈ T.view a) :
    (∃ c ∈ T.committed, v = (T.updates a c.id).getD c ∧ Clears work a c v) ∨ v ∈ T.inserts a := by
  rcases List.mem_append.mp hv with hv | hv
  · obtain ⟨c, hm, rfl⟩ := List.mem_map.mp hv
    refine .inl ⟨c, hm, rfl, ?_⟩
    rw [key_analysis]
    cases hu : T.updates a c.id with
    | none => exact .inl rfl
    | some v => exact he a c.id v c hu (get_of_mem hc.unique hm)
  · exact .inr hv

/-- A committed latest row of a thread whose slot `a` holds is locked by `a`. -/
theorem Exclusive.locked (h : Exclusive T a r) (hc : T.Consistent) (hr : r ∈ T.inserts a)
    (hm : c ∈ T.committed) (hl : c.LatestOf r.threadId) : T.lock c.id = some a := by
  cases hu : T.updates a c.id with
  | some v => exact (hc.locked a c.id v hu).1
  | none =>
    have hv : c ∈ T.view a :=
      List.mem_append_left _ (List.mem_map.mpr ⟨c, hm, by rw [key_analysis, hu, Option.getD_none]⟩)
    obtain rfl := h.2 c hv hl
    have hrow := get_of_mem hc.unique hm
    have hnew := (hc.inserted a c hr).2
    rw [Table.row, hrow] at hnew
    cases hnew

/-- Another transaction that clears flags does not get at the slot. -/
theorem Exclusive.write (h : Exclusive T a r) (hc : T.Consistent) (he : T.Evolves (Clears work))
    (hr : r ∈ T.inserts a) (hb : b ≠ a) (hnil : T.inserts b = []) {k t : Uuid}
    (hfree : T.Free b k) :
    Exclusive (T.write b k fun y => if y.LatestOf t then y.superseded else y) a r := by
  refine ⟨?_, by rw [Table.view_write_of_ne (Ne.symm hb)]; exact h.2⟩
  by_contra hne
  obtain ⟨y, hy, hslot, hor⟩ := Table.write_claim (fun he => hne (he.trans h.1))
  have hl : y.LatestOf t := by_contra fun hn => hslot (by rw [if_neg hn])
  have hy' : y.LatestOf r.threadId := by
    rcases hor with hs | hs
    · exact slot_eq_some.mp hs
    · rw [if_pos hl] at hs
      cases (slot_eq_some.mp hs).2
  -- the row is committed, so its lock is `a`'s
  rcases mem_view hc he (mem_of_get hy) with ⟨c, hm, -, hcl⟩ | hm
  · obtain rfl := hcl.eq hy'.2
    have hlock := h.locked hc hr hm hy'
    have hk : y.id = k := key_of_get hy
    rw [hk] at hlock
    rcases hfree with hf | hf <;> rw [hf] at hlock
    · cases hlock
    · exact hb (Option.some.inj hlock)
  · rw [hnil] at hm
    cases hm

theorem Exclusive.insert (h : Exclusive T a r) (hb : b ≠ a) (hfree : ¬ T.Blocked b r')
    (hl : r'.isLatest = true) : Exclusive (T.insert b r') a r := by
  refine ⟨?_, by rw [Table.view_insert_of_ne (Ne.symm hb)]; exact h.2⟩
  have hslot : slot r' = some r'.threadId := slot_eq_some.mpr ⟨rfl, hl⟩
  have hne : r'.threadId ≠ r.threadId := by
    intro ht
    refine hfree (.inr ⟨r'.threadId, hslot, ?_⟩)
    rw [ht, h.1]
    simpa using Ne.symm hb
  simp [Table.insert, Table.claimed, hslot, hne, h.1]

/-- A transaction that has inserted its row without a conflict. -/
theorem exclusive_insert (hc : ¬ T.Conflicts a r) (hl : r.isLatest = true) :
    Exclusive (T.insert a r) a r := by
  have hslot : slot r = some r.threadId := slot_eq_some.mpr ⟨rfl, hl⟩
  refine ⟨by simp [Table.insert, Table.claimed, hslot], fun y hy hy' => ?_⟩
  have hview : (T.insert a r).view a = T.view a ++ [r] := by simp [Table.view, Table.insert]
  rw [hview, List.mem_append, List.mem_singleton] at hy
  rcases hy with hy | rfl
  · refine absurd ⟨y, hy, .inr ⟨by simp [hslot], ?_⟩⟩ hc
    rw [hslot, slot_eq_some.mpr hy']
  · rfl

theorem Exclusive.rollback (h : Exclusive T a r) (hb : b ≠ a) : Exclusive (T.rollback b) a r := by
  refine ⟨?_, ?_⟩
  · simp [Table.rollback, h.1, Ne.symm hb]
  · have hview : (T.rollback b).view a = T.view a := by
      simp [Table.view, Table.rollback, Ne.symm hb]
    rw [hview]
    exact h.2

/-- The commit of another transaction brings no latest row into the thread. -/
theorem Exclusive.commit (h : Exclusive T a r) (hc : T.Consistent) (he : T.Evolves (Clears work))
    (hb : b ≠ a) (hex : ∀ r' ∈ T.inserts b, Exclusive T b r') : Exclusive (T.commit b) a r := by
  refine ⟨(h.rollback hb).1, fun y hy hy' => ?_⟩
  obtain ⟨hupd, hins⟩ := Table.rollback_work_of_ne (T := T) (Ne.symm hb)
  rcases List.mem_append.mp hy with hy | hy
  · obtain ⟨c', hc', rfl⟩ := List.mem_map.mp hy
    have hu' : (T.commit b).updates a (key c') = T.updates a (key c') := congrFun hupd _
    rw [hu'] at hy' ⊢
    rcases mem_view hc he hc' with ⟨c, hm, hc₀, hcl⟩ | hm
    · have hk : key c' = key c := by rw [hc₀]; exact hc.key_overlay b c
      have hover : (T.updates a (key c)).getD c ∈ T.view a :=
        List.mem_append_left _ (List.mem_map.mpr ⟨c, hm, rfl⟩)
      rw [hk] at hy' ⊢
      cases hu : T.updates a (key c) with
      | some v =>
        rw [hu] at hy' hover
        exact h.2 v hover hy'
      | none =>
        rw [hu] at hy' hover
        obtain rfl := hcl.eq hy'.2
        exact h.2 _ hover hy'
    · -- a row that `b` has inserted holds another slot
      have hnew := hc.inserted b c' hm
      have hnone : T.updates a (key c') = none := by
        cases hu : T.updates a (key c') with
        | none => rfl
        | some v => exact absurd hnew.2 (hc.locked a _ v hu).2.2
      rw [hnone] at hy'
      have hclaim := (hex c' hm).1
      rw [show c'.threadId = r.threadId from hy'.1, h.1] at hclaim
      exact absurd (Option.some.inj hclaim).symm hb
  · have hi : (T.commit b).inserts a = T.inserts a := hins
    rw [hi] at hy
    exact h.2 y (List.mem_append_right _ hy) hy'

end Exclusive

/-- The latest flags, with the persistence that each open transaction is at. -/
structure Flags {τ : Type*} [DecidableEq τ] (T : Table τ Uuid Uuid SessionAnalysis)
    (work : τ → Option Persist) : Prop where
  clears : T.Evolves (Clears work)
  aimed : ∀ a, ∀ x ∈ work a, x.Aimed
  exclusive : ∀ a, ∀ r ∈ T.inserts a, Exclusive T a r

section Flags

variable {τ : Type*} [DecidableEq τ] {T : Table τ Uuid Uuid SessionAnalysis}
  {work : τ → Option Persist} {a : τ}

theorem flags_ofRows (rows : List SessionAnalysis) :
    Flags (Table.ofRows rows : Table τ Uuid Uuid SessionAnalysis) fun _ => none :=
  ⟨Table.evolves_ofRows rows, by simp, by simp [Table.ofRows]⟩

theorem aimed_update (h : ∀ a, ∀ x ∈ work a, x.Aimed) {w : Option Persist}
    (hw : ∀ x ∈ w, x.Aimed) : ∀ b, ∀ x ∈ Function.update work a w b, x.Aimed := by
  intro b x hx
  by_cases hb : b = a
  · subst hb
    rw [Function.update_self] at hx
    exact hw x hx
  · rw [Function.update_of_ne hb] at hx
    exact h b x hx

namespace Flags

/-- A transaction that comes to its persistence has cleared nothing. -/
theorem enter (h : Flags T work) (hn : work a = none) {w : Option Persist}
    (hw : ∀ x ∈ w, x.Aimed) : Flags T (Function.update work a w) := by
  refine ⟨h.clears.mono ?_, aimed_update h.aimed hw, h.exclusive⟩
  rintro b k r c - (rfl | ⟨rfl, x, hx, hc⟩)
  · exact .inl rfl
  · refine .inr ⟨rfl, x, ?_, hc⟩
    rwa [Function.update_of_ne (by rintro rfl; rw [hn] at hx; cases hx)]

/-- What a transaction that ends leaves of the pending versions of the others. -/
theorem others (h : T.Evolves (Clears work)) (hn : ∀ k, T.updates a k = none) :
    T.Evolves (Clears (Function.update work a none)) := by
  refine h.mono ?_
  rintro b k r c hr (rfl | ⟨rfl, x, hx, hc⟩)
  · exact .inl rfl
  · refine .inr ⟨rfl, x, ?_, hc⟩
    rwa [Function.update_of_ne (by rintro rfl; rw [hn] at hr; cases hr)]

theorem rollback (h : Flags T work) (a : τ) :
    Flags (T.rollback a) (Function.update work a none) := by
  refine ⟨others (h.clears.rollback a) Table.untouched_rollback.1,
    aimed_update h.aimed (by simp), fun b r hr => ?_⟩
  by_cases hb : b = a
  · subst hb
    simp [Table.rollback] at hr
  · rw [(Table.rollback_work_of_ne hb).2] at hr
    exact (h.exclusive b r hr).rollback (Ne.symm hb)

theorem commit (h : Flags T work) (hc : T.Consistent) (a : τ) :
    Flags (T.commit a) (Function.update work a none) := by
  have hunt : (T.commit a).Untouched a := Table.untouched_rollback (T := T)
  refine ⟨others (h.clears.commit hc a) hunt.1, aimed_update h.aimed (by simp), fun b r hr => ?_⟩
  by_cases hb : b = a
  · subst hb
    rw [hunt.2] at hr
    cases hr
  · have hi : (T.commit a).inserts b = T.inserts b := (Table.rollback_work_of_ne hb).2
    rw [hi] at hr
    exact (h.exclusive b r hr).commit hc h.clears (Ne.symm hb) (h.exclusive a)

/-- The statement that clears the flags. -/
theorem clearLatest (h : Flags T work) (hc : T.Consistent) (hnil : T.inserts a = []) {x : Persist}
    (hx : work a = some x) (hw : x.phase.Writing) {latest : List Uuid}
    (hfree : ∀ k ∈ latest, T.Free a k) :
    Flags (clearLatest T a x.prepared.thread.id latest) work := by
  have hclear : ∀ c r : SessionAnalysis, r.LatestOf x.prepared.thread.id →
      Clears work a c r → Clears work a c r.superseded := by
    intro c r hl hr
    obtain rfl := hr.eq hl.2
    exact .inr ⟨rfl, x, hx, hw, hl.1.symm⟩
  refine ⟨h.clears.writeAll hc (fun _ => rfl) (fun _ => .inl rfl) hclear hfree, h.aimed, ?_⟩
  -- each single write leaves the slots of the others where they are
  have hothers := Table.writeAll_invariant (Q := fun T' => T'.Consistent ∧ T'.Evolves (Clears work) ∧
      T'.inserts a = [] ∧ ∀ b, b ≠ a → ∀ r ∈ T'.inserts b, Exclusive T' b r)
    (p := SessionAnalysis.LatestOf x.prepared.thread.id) (f := SessionAnalysis.superseded)
    (fun T' k hT' hl => ?_) hfree ⟨hc, h.clears, hnil, fun b _ => h.exclusive b⟩
  · intro b r hr
    by_cases hb : b = a
    · subst hb
      rw [Analysis.clearLatest, hothers.2.2.1] at hr
      cases hr
    · exact hothers.2.2.2 b hb r hr
  · obtain ⟨hc', he', hnil', hex⟩ := hT'
    refine ⟨hc'.write (fun r => by split <;> rfl) hl, ?_, ?_, fun b hb r hr => ?_⟩
    · refine he'.write hc' (fun _ => .inl rfl) fun c r _ _ hr => ?_
      split
      · exact hclear c r ‹_› hr
      · exact hr
    · rcases Table.write_inserts (T := T') (a := a) (k := k)
        (fun r => if r.LatestOf x.prepared.thread.id then r.superseded else r) with hi | hi <;>
        rw [hi, hnil']
      rfl
    · rw [Table.write_inserts_of_ne hb] at hr
      exact (hex b hb r hr).write hc' he' hr (Ne.symm hb) hnil' hl

/-- Every statement of the persistence. -/
theorem effect {db db' : Tables τ} {id : Uuid} {now : Time} {x x' : Persist}
    (h : Flags db.analyses work) (hc : db.analyses.Consistent) (hx : work a = some x)
    (hi : db.analyses.inserts a = x.phase.stored.toList) (he : x.Effect db a id now db' x')
    (ha : x'.Aimed) (hw : x.phase.Writing → x'.phase.Writing) :
    Flags db'.analyses (Function.update work a (some x')) := by
  have hmove : Flags db.analyses (Function.update work a (some x')) := by
    refine ⟨h.clears.mono ?_, aimed_update h.aimed (by simpa using ha), h.exclusive⟩
    rintro b k r c - (rfl | ⟨rfl, y, hy, hwy, ht⟩)
    · exact .inl rfl
    · by_cases hb : b = a
      · subst hb
        obtain rfl := Option.some.inj (hx.symm.trans hy)
        exact .inr ⟨rfl, x', by simp, hw hwy, by rwa [he.prepared]⟩
      · exact .inr ⟨rfl, y, by rwa [Function.update_of_ne hb], hwy, ht⟩
  cases he with
  | assemble | read | touch => exact hmove
  | clear analysis latest hp hfree =>
    rw [hp] at hi
    exact hmove.clearLatest hc hi (Function.update_self _ _ _) trivial hfree
  | insert analysis hp hb hcf =>
    have hl : analysis.isLatest = true := (ha.row analysis rfl).2
    rw [hp] at hi
    refine ⟨hmove.clears.insert, hmove.aimed, fun b r hr => ?_⟩
    by_cases hba : b = a
    · subst hba
      simp only [Table.insert, if_true, hi, Phase.stored, Option.toList_none, List.nil_append,
        List.mem_singleton] at hr
      subst hr
      exact exclusive_insert hcf hl
    · rw [Table.insert_inserts_of_ne hba] at hr
      exact (hmove.exclusive b r hr).insert (Ne.symm hba) hb hl

end Flags

end Flags

end LiberNovus.Analysis

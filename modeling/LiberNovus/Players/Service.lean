import LiberNovus.Foundation.ReadCommitted
import LiberNovus.Foundation.Runs
import LiberNovus.Runtime.Job

/-! Any number of concurrent requests that create or get a player, each one statement in a
transaction of its own: an `INSERT … ON CONFLICT (id) DO NOTHING` joined by `UNION` to a `SELECT`
that has taken its snapshot before. The table has a unique index on the names, too.

Proved: in every run a player is never written again, all answers for one player are the same
row, and a request is left without an answer exactly when another one has committed the player
since its snapshot; a new player whose name is taken never gets an answer. -/

namespace LiberNovus.Players

open Rows ReadCommitted Runs LiberNovus.Runtime

/-- A row of `players`. -/
structure PlayerModel where
  id : ℤ
  username : String
  createdAt : Time
  updatedAt : Option Time
  deriving DecidableEq, Repr

instance : Keyed PlayerModel ℤ := ⟨PlayerModel.id⟩

/-- `unique=True` of the migration. -/
instance : Indexed PlayerModel String := ⟨fun player => some player.username⟩

structure PlayerCreate where
  playerId : ℤ
  username : Option String
  deriving DecidableEq, Repr

/-- The row that the statement would insert. The columns are an `INTEGER` and a `VARCHAR(32)` that
are not null; other values raise before anything is looked up. -/
def PlayerCreate.row (player : PlayerCreate) (now : Time) : Option PlayerModel :=
  match player.username with
  | none => none
  | some username =>
    if -2147483648 ≤ player.playerId ∧ player.playerId < 2147483648 ∧ username.length ≤ 32 then
      some ⟨player.playerId, username, now, none⟩
    else none

/-- Where a request stands: before its statement, between the snapshot of the statement, with the
row that it has seen, and its `INSERT`, or behind the statement, with the first row of the
result. -/
inductive Stage where
  | ready
  | inserting (selected : Option PlayerModel)
  | returned (player : Option PlayerModel)
  deriving DecidableEq, Repr

structure Transaction where
  player : PlayerCreate
  startedAt : Time
  stage : Stage
  deriving DecidableEq

abbrev PlayerTable := Table ℕ ℤ String PlayerModel

/-- `SELECT * FROM new_player UNION SELECT …`, and `first()`. -/
def firstOfUnion (newPlayer selected : Option PlayerModel) : Option PlayerModel :=
  (newPlayer.toList ++ selected.toList).head?

/-- The next part of `create_or_get_player` in transaction `a`. -/
def Transaction.step (T : PlayerTable) (a : ℕ) (x : Transaction) : Option (PlayerTable × Stage) :=
  match x.player.row x.startedAt with
  | none => none
  | some row =>
    match x.stage with
    | .ready => some (T, .inserting (T.seen a row.id))
    | .inserting selected =>
      if ¬ T.Free a row.id then none
      else if (T.seen a row.id).isSome then some (T, .returned (firstOfUnion none selected))
      else if T.Blocked a row ∨ T.Conflicts a row then none
      else some (T.insert a row, .returned (firstOfUnion (some row) selected))
    | .returned _ => none

/-- The table, the open transactions, and the answers of the committed ones. -/
structure State where
  players : PlayerTable
  txs : ℕ → Option Transaction
  answers : List PlayerModel

inductive Event where
  | begin (a : ℕ) (player : PlayerCreate) (startedAt : Time)
  | step (a : ℕ)
  | commit (a : ℕ)
  | rollback (a : ℕ)
  deriving DecidableEq

/-- One event. A statement that has to wait or fails is not enabled; a request without a row
raises, so that it is rolled back like one that anything else interrupts. -/
def step (s : State) : Event → Option State
  | .begin a player startedAt =>
    if s.txs a = none then
      some { s with txs := Function.update s.txs a (some ⟨player, startedAt, .ready⟩) }
    else none
  | .step a => do
    let x ← s.txs a
    let (T, stage) ← x.step s.players a
    some { s with players := T, txs := Function.update s.txs a (some { x with stage := stage }) }
  | .commit a => do
    let x ← s.txs a
    match x.stage with
    | .returned (some player) => some {
        players := s.players.commit a
        txs := Function.update s.txs a none
        answers := s.answers ++ [player] }
    | _ => none
  | .rollback a =>
    if s.txs a = none then none
    else some { s with
      players := s.players.rollback a
      txs := Function.update s.txs a none }

def init (rows : List PlayerModel) : State := ⟨Table.ofRows rows, fun _ => none, []⟩

/-! ### What holds in every state -/

/-- What the requests have found and been told. -/
structure Agrees (s : State) : Prop where
  ids : DistinctKeys s.players.committed
  usernames : (s.players.committed.map PlayerModel.username).Nodup
  stored : ∀ player ∈ s.answers, s.players.row player.id = some player
  same : ∀ player ∈ s.answers, ∀ other ∈ s.answers, player.id = other.id → player = other
  overtaken : ∀ a x, s.txs a = some x → x.stage = .returned none →
    s.players.row x.player.playerId ≠ none
  taken : ∀ a x, s.txs a = some x → s.players.row x.player.playerId = none →
    (∃ other ∈ s.players.committed, some other.username = x.player.username) →
    ∀ player, x.stage ≠ .returned (some player)

/-- No player is written again, and a statement comes back empty exactly when it has not seen the
player that its `INSERT` has run into. -/
def Settles (s : State) (e : Event) (after : State) : Prop :=
  s.players.committed <+: after.players.committed ∧
    ∀ a x x' selected result, e = .step a → s.txs a = some x → x.stage = .inserting selected →
      after.txs a = some x' → x'.stage = .returned result →
        (result = none ↔ selected = none ∧ s.players.row x.player.playerId ≠ none)

/-! ### The work of one transaction -/

section Work

variable {T T' : PlayerTable} {a b : ℕ}

/-- What holds of the work of a transaction at each stage. -/
def Working (T : PlayerTable) (a : ℕ) (x : Transaction) : Prop :=
  match x.stage with
  | .ready => T.Untouched a
  | .inserting selected => T.Untouched a ∧
      ∀ player ∈ selected, T.row x.player.playerId = some player
  | .returned none => T.Untouched a ∧ T.row x.player.playerId ≠ none
  | .returned (some player) => player.id = x.player.playerId ∧
      (T.Untouched a ∧ T.row player.id = some player ∨
        T.inserts a = [player] ∧ some player.username = x.player.username)

/-- A number without a transaction has written nothing. -/
def Held (T : PlayerTable) (a : ℕ) : Option Transaction → Prop
  | none => T.Untouched a
  | some x => Working T a x

structure Wf (s : State) : Prop where
  consistent : s.players.Consistent
  frozen : ∀ a k, s.players.updates a k = none
  held : ∀ a, Held s.players a (s.txs a)
  usernames : (s.players.committed.map PlayerModel.username).Nodup
  claimed : ∀ a, ∀ row ∈ s.players.inserts a, s.players.claim row.username = some a
  fresh : ∀ a, ∀ row ∈ s.players.inserts a, ∀ other ∈ s.players.committed,
    other.username ≠ row.username
  answers : ∀ player ∈ s.answers, s.players.row player.id = some player

theorem row_of_create {player : PlayerCreate} {now : Time} {row : PlayerModel}
    (h : player.row now = some row) :
    row.id = player.playerId ∧ some row.username = player.username := by
  unfold PlayerCreate.row at h
  split at h
  · cases h
  · next username husername =>
    split at h <;> cases h
    exact ⟨rfl, husername.symm⟩

/-- A committed row stays as long as nothing is rewritten. -/
theorem row_commit (hT : T.Consistent) (hfrozen : ∀ a k, T.updates a k = none) {k : ℤ}
    {player : PlayerModel} (h : T.row k = some player) : (T.commit a).row k = some player := by
  rw [Table.commit_row, hT.seen_of_row h, hfrozen, Option.getD_none]

theorem view_eq (hfrozen : ∀ a k, T.updates a k = none) (a : ℕ) :
    T.view a = T.committed ++ T.inserts a := by
  have hid : (T.committed.map fun r => (T.updates a (key r)).getD r) = T.committed := by
    refine (List.map_congr_left fun r _ => ?_).trans (List.map_id _)
    rw [hfrozen, Option.getD_none]
    rfl
  rw [Table.view, hid]

/-- What a transaction has done depends on its own rows, and on committed ones that stay. -/
theorem Working.mono {x : Transaction} (h : Working T a x)
    (hrow : ∀ k player, T.row k = some player → T'.row k = some player)
    (hu : T'.updates a = T.updates a) (hi : T'.inserts a = T.inserts a) : Working T' a x := by
  have hunt : T.Untouched a → T'.Untouched a := fun hn =>
    ⟨fun k => (congrFun hu k).trans (hn.1 k), hi.trans hn.2⟩
  unfold Working at h ⊢
  split at h
  · exact hunt h
  · exact ⟨hunt h.1, fun player hp => hrow _ _ (h.2 player hp)⟩
  · obtain ⟨player, hp⟩ := Option.ne_none_iff_exists'.mp h.2
    exact ⟨hunt h.1, by rw [hrow _ _ hp]; exact Option.some_ne_none _⟩
  · refine ⟨h.1, h.2.imp (fun hp => ⟨hunt hp.1, hrow _ _ hp.2⟩) fun hp => ?_⟩
    exact ⟨hi.trans hp.1, hp.2⟩

theorem Held.mono {x : Option Transaction} (h : Held T a x)
    (hrow : ∀ k player, T.row k = some player → T'.row k = some player)
    (hu : T'.updates a = T.updates a) (hi : T'.inserts a = T.inserts a) : Held T' a x := by
  cases x with
  | none => exact ⟨fun k => (congrFun hu k).trans (h.1 k), hi.trans h.2⟩
  | some x => exact Working.mono h hrow hu hi

/-- What a part of the statement does. -/
inductive Effect (T : PlayerTable) (a : ℕ) (x : Transaction) (row : PlayerModel) :
    PlayerTable → Stage → Prop
  | select (hstage : x.stage = .ready) : Effect T a x row T (.inserting (T.seen a row.id))
  | found (selected : Option PlayerModel) (hstage : x.stage = .inserting selected)
      (hseen : T.seen a row.id ≠ none) : Effect T a x row T (.returned selected)
  | create (selected : Option PlayerModel) (hstage : x.stage = .inserting selected)
      (hseen : T.seen a row.id = none) (hblocked : ¬ T.Blocked a row)
      (hconflicts : ¬ T.Conflicts a row) : Effect T a x row (T.insert a row) (.returned (some row))

theorem effect_of_step {x : Transaction} {stage : Stage} (h : x.step T a = some (T', stage)) :
    ∃ row, x.player.row x.startedAt = some row ∧ Effect T a x row T' stage := by
  unfold Transaction.step at h
  split at h
  · cases h
  · next row hrow =>
    refine ⟨row, hrow, ?_⟩
    split at h
    · next hstage =>
      cases h
      exact .select hstage
    · next selected hstage =>
      split at h
      · cases h
      · split at h
        · next hseen =>
          cases h
          rw [show firstOfUnion none selected = selected by cases selected <;> rfl]
          exact .found selected hstage (Option.isSome_iff_ne_none.mp hseen)
        · next hseen =>
          split at h
          · cases h
          · next hok =>
            cases h
            obtain ⟨hblocked, hconflicts⟩ := not_or.mp hok
            exact .create selected hstage (Option.not_isSome_iff_eq_none.mp hseen) hblocked hconflicts
    · cases h

end Work

/-! ### Steps -/

section Steps

variable {s after : State} {a : ℕ} {x : Transaction} {row : PlayerModel} {T : PlayerTable}
  {stage : Stage}

theorem held_update {T : PlayerTable} {txs : ℕ → Option Transaction} {x : Option Transaction}
    (hothers : ∀ b, b ≠ a → Held T b (txs b)) (hself : Held T a x) (b : ℕ) :
    Held T b (Function.update txs a x b) := by
  by_cases hb : b = a
  · subst hb
    rwa [Function.update_self]
  · rw [Function.update_of_ne hb]
    exact hothers b hb

/-- The parts that write nothing. -/
theorem Wf.of_same (hw : Wf s) {txs : ℕ → Option Transaction}
    (hheld : ∀ b, Held s.players b (txs b)) : Wf { s with txs := txs } :=
  ⟨hw.consistent, hw.frozen, hheld, hw.usernames, hw.claimed, hw.fresh, hw.answers⟩

theorem untouched_of_inserting (hw : Wf s) (hx : s.txs a = some x) {selected : Option PlayerModel}
    (hstage : x.stage = .inserting selected) : s.players.Untouched a ∧
      ∀ player ∈ selected, s.players.row x.player.playerId = some player := by
  have h := hw.held a
  rw [hx] at h
  simpa only [Held, Working, hstage] using h

theorem seen_eq_row (hunt : s.players.Untouched a) (k : ℤ) :
    s.players.seen a k = s.players.row k := by
  rw [Table.seen, hunt.view, Table.row]

theorem wf_effect (hw : Wf s) (hx : s.txs a = some x) (hrow : x.player.row x.startedAt = some row)
    (he : Effect s.players a x row T stage) :
    Wf { s with players := T, txs := Function.update s.txs a (some { x with stage := stage }) } := by
  have hid := (row_of_create hrow).1
  have hothers : ∀ b, b ≠ a → Held s.players b (s.txs b) := fun b _ => hw.held b
  cases he with
  | select hstage =>
    have hunt : s.players.Untouched a := by
      have h := hw.held a
      rw [hx] at h
      simpa only [Held, Working, hstage] using h
    refine hw.of_same (held_update hothers ⟨hunt, ?_⟩)
    intro player hplayer
    rwa [Option.mem_def, seen_eq_row hunt, hid] at hplayer
  | found selected hstage hseen =>
    obtain ⟨hunt, hselected⟩ := untouched_of_inserting hw hx hstage
    rw [seen_eq_row hunt, hid] at hseen
    refine hw.of_same (held_update hothers ?_)
    cases selected with
    | none => exact ⟨hunt, hseen⟩
    | some player =>
      have hplayer := hselected player rfl
      have hkey : player.id = x.player.playerId := key_of_get hplayer
      exact ⟨hkey, .inl ⟨hunt, hkey ▸ hplayer⟩⟩
  | create selected hstage hseen hblocked hconflicts =>
    obtain ⟨hunt, -⟩ := untouched_of_inserting hw hx hstage
    have hinserts : (s.players.insert a row).inserts a = [row] := by
      simp [Table.insert, hunt.2]
    have hne : ∀ b, b ≠ a → (s.players.insert a row).inserts b = s.players.inserts b :=
      fun b hb => Table.insert_inserts_of_ne hb
    -- nobody else holds the name
    have hfree : ∀ b, s.players.claim row.username = some b → b = a := by
      intro b hb
      by_contra hba
      refine hblocked (.inr ⟨row.username, rfl, ?_, ?_⟩) <;> rw [hb]
      · exact Option.some_ne_none b
      · exact fun he => hba (Option.some.inj he)
    refine ⟨hw.consistent.insert hblocked hconflicts, hw.frozen, held_update (fun b hb => ?_) ?_,
      hw.usernames, fun b r hr => ?_, fun b r hr other hother he => ?_, hw.answers⟩
    · exact Held.mono (hothers b hb) (fun _ _ h => h) rfl (hne b hb)
    · exact ⟨hid, .inr ⟨hinserts, (row_of_create hrow).2⟩⟩
    · by_cases hb : b = a
      · subst hb
        rw [hinserts] at hr
        obtain rfl := List.mem_singleton.mp hr
        simp [Table.insert, Table.claimed, slot]
      · rw [hne b hb] at hr
        have hclaim := hw.claimed b r hr
        by_cases hname : r.username = row.username
        · exact absurd (hfree b (hname ▸ hclaim)) hb
        · simpa [Table.insert, Table.claimed, slot, Ne.symm hname] using hclaim
    · by_cases hb : b = a
      · subst hb
        rw [hinserts] at hr
        obtain rfl := List.mem_singleton.mp hr
        refine hconflicts ⟨other, ?_, .inr ⟨Option.some_ne_none _, congrArg some he⟩⟩
        rw [view_eq hw.frozen]
        exact List.mem_append_left _ hother
      · rw [hne b hb] at hr
        exact hw.fresh b r hr other hother he

theorem wf_rollback (hw : Wf s) (a : ℕ) : Wf { s with
    players := s.players.rollback a, txs := Function.update s.txs a none } := by
  have hinserts : ∀ b, ∀ r ∈ (s.players.rollback a).inserts b, b ≠ a ∧ r ∈ s.players.inserts b := by
    intro b r hr
    simp only [Table.rollback] at hr
    split at hr
    · cases hr
    · next hb => exact ⟨hb, hr⟩
  refine ⟨hw.consistent.rollback a, fun b k => ?_, held_update (fun b hb => ?_)
    Table.untouched_rollback, hw.usernames, fun b r hr => ?_, fun b r hr => ?_, hw.answers⟩
  · simp [Table.rollback, hw.frozen]
  · obtain ⟨hu, hi⟩ := Table.rollback_work_of_ne (T := s.players) hb
    exact Held.mono (hw.held b) (fun _ _ h => h) hu hi
  · obtain ⟨hb, hr⟩ := hinserts b r hr
    simp [Table.rollback, hw.claimed b r hr, hb]
  · exact hw.fresh b r (hinserts b r hr).2

theorem wf_commit (hw : Wf s) (hx : s.txs a = some x) {player : PlayerModel}
    (hstage : x.stage = .returned (some player)) : Wf {
      players := s.players.commit a
      txs := Function.update s.txs a none
      answers := s.answers ++ [player] } := by
  have hroll := wf_rollback hw a
  have hheld := hw.held a
  simp only [hx, Held, Working, hstage] at hheld
  have hrow : ∀ k r, s.players.row k = some r → (s.players.commit a).row k = some r :=
    fun _ _ => row_commit hw.consistent hw.frozen
  have hcommitted : (s.players.commit a).committed = s.players.committed ++ s.players.inserts a :=
    view_eq hw.frozen a
  refine ⟨hw.consistent.commit a, hroll.frozen, held_update (fun b hb => ?_)
    Table.untouched_rollback, ?_, hroll.claimed, fun b r hr other hother => ?_, fun r hr => ?_⟩
  · obtain ⟨hu, hi⟩ := Table.rollback_work_of_ne (T := s.players) hb
    exact Held.mono (hw.held b) hrow hu hi
  · rw [hcommitted, List.map_append, List.nodup_append]
    refine ⟨hw.usernames, ?_, ?_⟩
    · rcases hheld.2 with ⟨hunt, -⟩ | ⟨hinserts, -⟩
      · rw [hunt.2]
        exact List.nodup_nil
      · rw [hinserts]
        exact List.nodup_singleton _
    · intro name hname name' hname' he
      obtain ⟨other, hother, rfl⟩ := List.mem_map.mp hname
      obtain ⟨r, hr, rfl⟩ := List.mem_map.mp hname'
      exact hw.fresh a r hr other hother he
  · rw [hcommitted, List.mem_append] at hother
    rcases hother with hother | hother
    · exact hroll.fresh b r hr other hother
    · intro he
      -- the index slot of the name is held by one of the two alone
      have hr' := hroll.claimed b r hr
      have hother' := hw.claimed a other hother
      simp [Table.rollback, ← he, hother'] at hr'
  · rcases List.mem_append.mp hr with hr | hr
    · exact hrow _ _ (hw.answers r hr)
    · obtain rfl := List.mem_singleton.mp hr
      rcases hheld.2 with ⟨-, hcommitted⟩ | ⟨hinserts, -⟩
      · exact hrow _ _ hcommitted
      · refine get_of_mem (hw.consistent.view_distinctKeys a) ?_
        rw [view_eq hw.frozen, hinserts]
        exact List.mem_append_right _ (List.mem_singleton_self r)

theorem wf_step {e : Event} (hw : Wf s) (ht : step s e = some after) : Wf after := by
  cases e with
  | begin a player startedAt =>
    simp only [step, Option.ite_none_right_eq_some, Option.some.injEq] at ht
    obtain ⟨hnone, rfl⟩ := ht
    refine hw.of_same (held_update (fun b _ => hw.held b) ?_)
    have hheld := hw.held a
    rw [hnone] at hheld
    exact hheld
  | step a =>
    simp only [step, Option.bind_eq_bind, Option.bind_eq_some_iff, Option.some.injEq] at ht
    obtain ⟨x, hx, ⟨T, stage⟩, hstep, rfl⟩ := ht
    obtain ⟨row, hrow, heffect⟩ := effect_of_step hstep
    exact wf_effect hw hx hrow heffect
  | commit a =>
    simp only [step, Option.bind_eq_bind, Option.bind_eq_some_iff] at ht
    obtain ⟨x, hx, ht⟩ := ht
    split at ht <;> cases ht
    next player hstage => exact wf_commit hw hx hstage
  | rollback a =>
    simp only [step, Option.ite_none_left_eq_some, Option.some.injEq] at ht
    obtain ⟨-, rfl⟩ := ht
    exact wf_rollback hw a

end Steps

/-! ### Runs -/

section Runs

variable {s after : State}

theorem wf_init {rows : List PlayerModel} (hids : DistinctKeys rows)
    (hnames : (rows.map PlayerModel.username).Nodup) : Wf (init rows) where
  consistent := Table.consistent_ofRows hids
  frozen _ _ := rfl
  held a := Table.untouched_ofRows rows a
  usernames := hnames
  claimed _ _ hr := by cases hr
  fresh _ _ hr := by cases hr
  answers _ hr := by cases hr

theorem Wf.agrees (hw : Wf s) : Agrees s where
  ids := hw.consistent.unique
  usernames := hw.usernames
  stored := hw.answers
  same player hplayer other hother hid := by
    have h := hw.answers player hplayer
    rw [hid, hw.answers other hother] at h
    exact (Option.some.inj h).symm
  overtaken a x hx hstage := by
    have hheld := hw.held a
    simp only [hx, Held, Working, hstage] at hheld
    exact hheld.2
  taken a x hx hnone := by
    rintro ⟨other, hother, hname⟩ player hstage
    have hheld := hw.held a
    simp only [hx, Held, Working, hstage] at hheld
    obtain ⟨hid, ⟨-, hrow⟩ | ⟨hinserts, husername⟩⟩ := hheld
    · rw [hid, hnone] at hrow
      cases hrow
    · rw [← husername] at hname
      refine hw.fresh a player ?_ other hother (Option.some.inj hname)
      rw [hinserts]
      exact List.mem_singleton_self player

theorem settles_step {e : Event} (hw : Wf s) (ht : step s e = some after) : Settles s e after := by
  refine ⟨?_, ?_⟩
  · cases e with
    | begin a player startedAt =>
      simp only [step, Option.ite_none_right_eq_some, Option.some.injEq] at ht
      obtain ⟨-, rfl⟩ := ht
      exact List.prefix_rfl
    | step a =>
      simp only [step, Option.bind_eq_bind, Option.bind_eq_some_iff, Option.some.injEq] at ht
      obtain ⟨x, hx, ⟨T, stage⟩, hstep, rfl⟩ := ht
      obtain ⟨row, -, heffect⟩ := effect_of_step hstep
      cases heffect <;> exact List.prefix_rfl
    | commit a =>
      simp only [step, Option.bind_eq_bind, Option.bind_eq_some_iff] at ht
      obtain ⟨x, hx, ht⟩ := ht
      split at ht <;> cases ht
      exact ⟨s.players.inserts a, (view_eq hw.frozen a).symm⟩
    | rollback a =>
      simp only [step, Option.ite_none_left_eq_some, Option.some.injEq] at ht
      obtain ⟨-, rfl⟩ := ht
      exact List.prefix_rfl
  · rintro a x x' selected result rfl hx hstage hx' hresult
    simp only [step, hx, Option.bind_eq_bind, Option.bind_some, Option.bind_eq_some_iff,
      Option.some.injEq] at ht
    obtain ⟨⟨T, stage⟩, hstep, rfl⟩ := ht
    obtain ⟨row, hrow, heffect⟩ := effect_of_step hstep
    obtain ⟨hunt, -⟩ := untouched_of_inserting hw hx hstage
    simp only [Function.update_self, Option.some.injEq] at hx'
    subst hx'
    have hid := (row_of_create hrow).1
    cases heffect with
    | select h => simp [h] at hstage
    | found selected' h hseen =>
      rw [seen_eq_row hunt, hid] at hseen
      simp only [h, Stage.inserting.injEq, Stage.returned.injEq] at hstage hresult
      simp [← hresult, hstage, hseen]
    | create selected' h hseen =>
      rw [seen_eq_row hunt, hid] at hseen
      simp only [Stage.returned.injEq] at hresult
      simp [← hresult, hseen]

/-- The answers agree in every state of every run, and the players stay as they were created. -/
theorem players_agree {rows : List PlayerModel} (hids : DistinctKeys rows)
    (hnames : (rows.map PlayerModel.username).Nodup) (es : List Event) :
    Always step Agrees (init rows) es ∧ AlwaysStep step Settles (init rows) es :=
  ⟨(always_of_step (fun _ _ _ hw ht => wf_step hw ht) (wf_init hids hnames) es).mono
      fun _ hw => hw.agrees,
    alwaysStep_of_step (Q := Settles)
      (fun _ _ _ hw ht => ⟨wf_step hw ht, settles_step hw ht⟩) (wf_init hids hnames) es⟩

/-- Two requests of one player, of which the second has its snapshot before the first commits, and
one of another player with the same name. -/
theorem players_agree_overtaken :
    let es : List Event := [.begin 1 ⟨7, some "anna"⟩ 0, .begin 2 ⟨7, some "anna"⟩ 1, .step 1,
      .step 2, .step 1, .commit 1, .step 2, .begin 3 ⟨8, some ""⟩ 2, .step 3]
    Always step Agrees (init [⟨5, "", 0, none⟩]) es ∧
      AlwaysStep step Settles (init [⟨5, "", 0, none⟩]) es := by
  have hids : DistinctKeys [(⟨5, "", 0, none⟩ : PlayerModel)] := List.nodup_singleton _
  exact players_agree hids (List.nodup_singleton "") _

end Runs

end LiberNovus.Players

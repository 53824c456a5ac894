import LiberNovus.Foundation.Triples
import LiberNovus.Runtime.Executor

/-! What an execution that runs alone writes, function by function: threads, summaries and
memories, new analyses and the flags of old ones, and the row of its job.

Proved: an execution of any copy of a job, and an analysis of any session, move the tables along
every relation that these statements stay within, whatever the provider answers and whichever
flush fails; the analyses that are added have passed the validator. -/

namespace LiberNovus.Runtime.Writes

open Rows UnitOfWork Session Analysis Pipeline Memory

/-- A relation that every statement of an execution stays within, if the contents of new analyses
are such as `V` says. -/
structure Permits (V : String → Prop) (R : Database → Database → Prop) : Prop where
  others : ∀ db threads summaries memories,
    R db { db with threads := threads, summaries := summaries, memories := memories }
  flags : ∀ (db : Database) (f : SessionAnalysis → SessionAnalysis),
    (∀ row, f row = row ∨ f row = row.superseded) → R db { db with analyses := db.analyses.map f }
  stored : ∀ (db : Database) (analysis : SessionAnalysis), V analysis.analysisJson →
    R db { db with analyses := db.analyses ++ [analysis] }
  finished : ∀ (db : Database) (jobId : Uuid) (fin : Queue.Finish),
    R db { db with jobs := modify db.jobs jobId fin.write }

variable {V : String → Prop} {R : Database → Database → Prop} [Std.Refl R] [IsTrans Database R]

/-- Code that stays within the relation, and whose result is known. -/
abbrev Within (R : Database → Database → Prop) {α : Type} (m : Run α) (Q : α → Prop) : Prop :=
  Triple R (fun _ => True) m fun a _ => Q a

section Parts

variable {α : Type}

omit [IsTrans Database R] in
theorem within_statement {g : Database → Except Exc (α × Database)}
    (h : ∀ db a after, g db = .ok (a, after) → R db after) :
    Within R (Tx.statement g) fun _ => True :=
  .statement fun db a after _ he => ⟨h db a after he, trivial⟩

omit [IsTrans Database R] in
theorem within_flush {env : Environment} {site : Flush} {f : Database → Database}
    (h : ∀ db, R db (f db)) : Within R (env.flush site f) fun _ => True :=
  .flush fun db _ => ⟨h db, trivial⟩

omit [IsTrans Database R] in
theorem within_query {g : Database → α} : Within R (Tx.query g) fun _ => True :=
  .query fun _ _ => trivial

omit [IsTrans Database R] in
theorem within_lift {x : Except Exc α} : Within R (Tx.lift x) fun _ => True :=
  .lift fun _ _ _ _ => trivial

omit [IsTrans Database R] in
theorem within_pure {a : α} : Within R (pure a) fun _ => True := .pure fun _ _ => trivial

omit [Std.Refl R] in
theorem within_bind {β : Type} {m : Run α} {f : α → Run β} {Q : α → Prop} {Q' : β → Prop}
    (hm : Within R m Q) (hf : ∀ a, Q a → Within R (f a) Q') : Within R (m >>= f) Q' :=
  Triple.bind hm fun a s hs => by
    obtain ⟨hmoved, hok⟩ := hf a hs s trivial
    exact ⟨hmoved, hok⟩

omit [Std.Refl R] [IsTrans Database R] in
theorem within_attempt {m : Run α} {Q : α → Prop} (h : Within R m Q) :
    Within R (Tx.attempt m) fun r => ∀ a, r = .ok a → Q a :=
  (Triple.attempt h).mono (fun _ h => h) fun _ _ h => h.2

end Parts

variable (hR : Permits V R) {env : Environment} {sessionId : Uuid}

/-! ### Threads -/

section Threads

variable {reresolve : Bool}

include hR

theorem within_createThread : Within R (Pipeline.createThread env sessionId reresolve) fun _ => True := by
  refine within_bind (within_statement fun db a after he => ?_) fun _ _ =>
    within_bind (within_attempt (within_flush fun db => hR.others db _ _ _)) fun r _ => ?_
  · cases he
    exact hR.others db _ _ _
  · split
    · exact within_pure
    · exact .raise
    · exact .fail

theorem within_runCommand (thread : Option AnalysisThread) (command : TransitionCommand) :
    Within R (runCommand env sessionId reresolve thread command) fun _ => True := by
  unfold runCommand
  split
  · exact within_bind (within_createThread hR) fun _ _ => within_pure
  · refine within_statement fun db a after he => ?_
    split at he <;> cases he
    exact hR.others db _ _ _

theorem within_runCommands (commands : List TransitionCommand) (thread : Option AnalysisThread) :
    Within R (runCommands env sessionId reresolve commands thread) fun _ => True := by
  induction commands generalizing thread with
  | nil => exact within_pure
  | cons command commands ih =>
    exact within_bind (within_runCommand hR thread command) fun thread _ => ih thread

theorem within_resolveRound (mode : AnalysisMode) :
    Within R (resolveRound env sessionId mode reresolve) fun _ => True := by
  refine within_bind within_query fun _ _ => within_bind within_lift fun _ _ =>
    within_bind within_query fun _ _ =>
    within_bind (Q := fun _ => True) (.nested ?_) fun _ _ => within_pure
  refine within_bind (within_runCommands hR _ _) fun thread _ => ?_
  cases thread
  · exact .raise
  · exact within_pure

end Threads

/-! ### Analyses -/

section Analyses

variable (hnobody : ∀ await db, env.committing await db = db)
include hnobody

omit [IsTrans Database R] in
theorem within_others (await : Await) : Within R (env.others await) fun _ => True :=
  .interleave (hnobody await) fun _ _ => trivial

theorem within_generate (prompt promptVersion : String) (temperature : Option ℚ) :
    Within R (env.generate prompt promptVersion temperature) fun _ => True :=
  within_bind within_lift fun _ _ => within_bind (within_others hnobody _) fun _ _ => within_lift

include hR

theorem within_resolveThreadForAnalysis (mode : AnalysisMode) :
    Within R (resolveThreadForAnalysis env sessionId mode) fun _ => True := by
  refine within_bind (within_attempt (within_resolveRound hR mode)) fun r _ => ?_
  split
  · exact within_pure
  · exact within_bind (within_others hnobody _) fun _ _ => within_resolveRound hR mode
  · exact .fail

theorem within_persist (thread : AnalysisThread) {analysis : SessionAnalysis}
    (h : V analysis.analysisJson) :
    Within R (persistSessionAnalysisInThread env thread analysis) fun _ => True := by
  refine within_bind within_lift fun _ _ => within_bind (within_statement fun db _ after he => ?_)
    fun _ _ => within_bind (within_others hnobody _) fun _ _ =>
      within_bind (within_flush fun db => hR.stored db analysis h) fun _ _ =>
      within_bind (within_flush fun db => hR.others db _ _ _) fun _ _ => within_pure
  cases he
  refine hR.flags db _ fun row => ?_
  split
  · exact .inr rfl
  · exact .inl rfl

variable (hV : ∀ payload json, env.validateAnalysisOutput payload = .ok json → V json)
include hV

variable [CharTable]

/-- What is prepared has been validated. -/
theorem within_prepareSessionAnalysis (mode : AnalysisMode) :
    Within R (prepareSessionAnalysis env sessionId mode) fun prepared => V prepared.analysisJson := by
  refine within_bind (within_statement fun db a after he => ?_) fun context _ =>
    within_bind (within_generate hnobody _ _ _) fun raw _ => within_bind within_lift fun payload _ =>
    within_bind (Q := V) (.lift fun json db hjson _ => ?_) fun json hjson =>
    within_bind (within_resolveThreadForAnalysis hR hnobody mode) fun r _ => .pure fun _ _ => hjson
  · split at he <;> cases he
    exact hR.others db _ _ _
  · cases hvalid : env.validateAnalysisOutput payload with
    | error e =>
      rw [hvalid] at hjson
      cases hjson
    | ok validated =>
      rw [hvalid] at hjson
      cases hjson
      exact hV payload _ hvalid

theorem within_runSessionAnalysis (mode : AnalysisMode) :
    Within R (runSessionAnalysis env sessionId mode) fun _ => True :=
  within_bind (within_prepareSessionAnalysis hR hnobody hV mode) fun prepared hprepared =>
    within_bind (Q := fun row => V row.analysisJson) (.query fun _ _ => hprepared) fun _ hrow =>
      within_persist hR hnobody prepared.thread hrow

/-- An analysis, committed or rolled back. -/
theorem rel_analyse (mode : AnalysisMode) (db : Database) :
    R db (Tx.transaction (runSessionAnalysis env sessionId mode) db).2 :=
  (within_runSessionAnalysis hR hnobody hV mode).transaction trivial

end Analyses

/-! ### Executions -/

section Executions

variable {deliver : AnalysisJob → SessionAnalysis → Except String Unit} {job : AnalysisJob}

omit [IsTrans Database R] in
theorem within_require {α : Type} (read : Database → Option α) (missing : Exc) :
    Within R (require read missing) fun _ => True := by
  refine within_statement fun db a after he => ?_
  split at he <;> cases he
  exact Std.Refl.refl db

include hR

theorem within_upsertDreamMemory {dreamId : ℕ} {userId : ℤ} {memory : StructuredDreamMemoryV1}
    {analysisJobId : Option Uuid} :
    Within R (upsertDreamMemory env dreamId sessionId userId memory analysisJobId) fun _ => True := by
  refine within_bind within_query fun existing _ => ?_
  cases existing with
  | none => exact within_bind (within_flush fun db => hR.others db _ _ _) fun _ _ => within_pure
  | some existing =>
    exact within_bind (within_flush fun db => hR.others db _ _ _) fun _ _ => within_pure

omit [IsTrans Database R] in
theorem within_callQueue (jobId : Uuid) (fin : Queue.Finish) :
    Within R (callQueue jobId fin) fun _ => True := by
  refine within_statement fun db a after he => ?_
  rw [Queue.Finish.call_eq] at he
  split at he <;> cases he
  next hcall =>
    obtain ⟨row, -, -, hr⟩ := transition_ok.mp hcall
    obtain ⟨rfl, rfl⟩ := Prod.mk.inj hr
    exact hR.finished db jobId fin

variable (hnobody : ∀ await db, env.committing await db = db)
  (hV : ∀ payload json, env.validateAnalysisOutput payload = .ok json → V json)
include hnobody

theorem within_executeDreamMemoryJob : Within R (executeDreamMemoryJob env job) fun _ => True :=
  within_bind (within_bind within_lift fun _ _ => within_bind (within_require _ _) fun _ _ =>
    within_bind (within_bind (within_require _ _) fun _ _ => within_bind
      (within_bind (within_require _ _) fun _ _ => within_bind (within_require _ _) fun _ _ =>
        within_bind (within_generate hnobody _ _ _) fun _ _ => within_bind within_lift fun _ _ =>
          within_bind within_lift fun _ _ => within_lift) fun _ _ => within_pure) fun _ _ =>
      within_pure) fun _ _ => within_bind (within_upsertDreamMemory hR) fun _ _ => within_pure

variable [CharTable]
include hV

theorem within_executeWithJobBinding :
    Within R (executeWithJobBinding env job) fun _ => True := by
  unfold executeWithJobBinding
  split
  · exact within_bind (within_executeDreamMemoryJob hR hnobody) fun _ _ => .raise
  · refine within_bind (Q := fun r => V r.1.analysisJson) (within_bind
      (within_prepareSessionAnalysis hR hnobody hV job.mode) fun prepared hprepared =>
        within_bind (Q := fun row => V row.analysisJson ∧ row.analysisJobId = none)
          (.query fun _ _ => ⟨hprepared, rfl⟩) fun row hrow =>
        within_bind (Q := fun bound => V bound.analysisJson) (.lift fun bound _ hbound _ => ?_)
          fun bound hbound => .pure fun _ _ => hbound) fun r hr =>
      within_bind (within_others hnobody _) fun _ _ => within_persist hR hnobody r.2 hr
    rw [bindJob, SessionAnalysis.withJobId, hrow.2] at hbound
    cases hbound
    exact hrow.1

/-- An execution of a copy of a job, which may be any row. -/
theorem rel_execute (db : Database) : R db (execute env deliver job db).2 := by
  have hattempt : Within R (attemptJob env job) fun _ => True := by
    refine within_bind (within_attempt (within_executeWithJobBinding hR hnobody hV)) fun r _ => ?_
    split
    · exact within_pure
    · exact within_bind (within_callQueue hR _ _) fun _ _ => within_pure
    · exact .fail
  have hexecute : Within R (executeAnalysisJob env deliver job) fun _ => True := by
    refine within_bind (within_attempt hattempt) fun r _ => ?_
    split
    · exact within_callQueue hR _ _
    · exact within_pure
    · refine within_bind (within_callQueue hR _ _) fun _ _ => ?_
      split
      · exact within_bind within_lift fun _ _ => within_pure
      · exact within_pure
  exact hexecute.transaction trivial

end Executions

end LiberNovus.Runtime.Writes

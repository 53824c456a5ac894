import Mathlib.Data.Rat.Defs
import LiberNovus.Analysis.StateMachine
import LiberNovus.Database
import LiberNovus.Foundation.UnitOfWork
import LiberNovus.Prompts.Compiler

/-! What an execution meets outside its own code: the language model and the retries
around it, the exceptions that travel through the services, the flushes that can fail,
and the commits of other transactions. -/

namespace LiberNovus

open LiberNovus.Runtime Analysis Session Memory Prompts UnitOfWork

/-! ### Providers -/

/-- What a provider raises. `SDKUnexpectedError` is a terminal error; `other` is any
exception that the services do not name. -/
inductive ProviderError where
  | transport (message : String)
  | terminal (message : String)
  | other (message : String)
  deriving DecidableEq, Repr

/-- `str` of it. -/
def ProviderError.message : ProviderError → String
  | .transport message | .terminal message | .other message => message

structure ProviderRawResponse where
  rawText : String
  provider : String
  model : String
  deriving DecidableEq, Repr

/-- A provider; the last argument counts the requests of one call of `generate_with_retry`. -/
structure LLMProvider where
  generate : (prompt promptVersion : String) → (temperature : Option ℚ) → ℕ →
    Except ProviderError ProviderRawResponse

/-- The requests from number `attempt` on, when `left` more may follow it. -/
def requests (ask : ℕ → Except ProviderError ProviderRawResponse) (attempt : ℕ) :
    ℕ → Except ProviderError ProviderRawResponse
  | 0 => ask attempt
  | left + 1 =>
    match ask attempt with
    | .error (.transport _) => requests ask (attempt + 1) left
    | result => result

def requested (ask : ℕ → Except ProviderError ProviderRawResponse) (attempt : ℕ) : ℕ → ℕ
  | 0 => 1
  | left + 1 =>
    match ask attempt with
    | .error (.transport _) => requested ask (attempt + 1) left + 1
    | _ => 1

/-- `generate_with_retry`: only a transport error is asked again. -/
def generateWithRetry (llmMaxAttempts : ℤ) (llm : LLMProvider) (prompt promptVersion : String)
    (temperature : Option ℚ) : Except ProviderError ProviderRawResponse :=
  requests (llm.generate prompt promptVersion temperature) 1 ((max 1 llmMaxAttempts).toNat - 1)

/-- The outcome is a transport error. -/
def Transport (outcome : Except ProviderError ProviderRawResponse) : Prop :=
  ∃ message, outcome = .error (.transport message)

/-- The requests end with the first that is no transport error, or with the last one. -/
theorem requests_eq {ask : ℕ → Except ProviderError ProviderRawResponse} {attempt left n : ℕ}
    (hle : attempt ≤ n) (hlast : n ≤ attempt + left)
    (h : ∀ i, attempt ≤ i → i < n → Transport (ask i))
    (hend : n = attempt + left ∨ ¬ Transport (ask n)) :
    requests ask attempt left = ask n ∧ attempt + requested ask attempt left = n + 1 := by
  induction left generalizing attempt with
  | zero =>
    obtain rfl : n = attempt := by omega
    exact ⟨rfl, rfl⟩
  | succ left ih =>
    by_cases heq : attempt = n
    · subst heq
      have hfirst : ¬ Transport (ask attempt) := hend.resolve_left (by omega)
      unfold requests requested
      split
      · next message hm => exact absurd ⟨message, hm⟩ hfirst
      · exact ⟨rfl, rfl⟩
    · obtain ⟨message, hm⟩ := h attempt le_rfl (by omega)
      have hrest : requests ask (attempt + 1) left = ask n ∧
          attempt + 1 + requested ask (attempt + 1) left = n + 1 :=
        ih (by omega) (by omega) (fun i hi => h i (by omega)) (hend.imp_left fun _ => by omega)
      obtain ⟨hrequests, hcount⟩ := hrest
      simp only [requests, requested, hm]
      exact ⟨hrequests, by omega⟩

/-! ### Exceptions -/

/-- The exceptions of an execution. `other` are those that no handler tells apart from an
unclassified one. -/
inductive Exc where
  | retryable (message : String)
  | nonRetryable (message : String)
  | memoryOnlyComplete
  | session (e : SessionError)
  | resolve (e : ResolveError)
  | transition (e : InvalidJobTransitionError)
  | other (message : String)
  deriving DecidableEq

/-- `str` of an exception. -/
def Exc.message : Exc → String
  | .retryable message => message
  | .nonRetryable message => message
  | .memoryOnlyComplete => ""
  | .session (.http statusCode detail) => s!"{statusCode}: {detail}"
  | .session (.runtime message) => message
  | .resolve (.value message) => message
  | .resolve (.concurrency message) => message
  | .transition e => e.message
  | .other message => message

/-- What code that runs in a database session raises. -/
abbrev RunError : Type := Failure Exc

/-- `str` of it. -/
def RunError.message : RunError → String
  | .raised e => e.message
  | .integrity message => message
  | .pendingRollback => "Can't operate on closed transaction inside context manager.  " ++
      "Please complete the context manager before emitting further commands."

/-- A transport error that outlives its retries may be tried again later. -/
def Exc.ofProvider : ProviderError → Exc
  | .transport message => .retryable message
  | .terminal message => .nonRetryable message
  | .other message => .other message

/-! ### The environment -/

/-- The flushes of an execution that write something. `create_thread` is reached at most
once in each of the two rounds of `resolve_thread_for_analysis`. -/
inductive Flush where
  | createThread (reresolve : Bool)
  | insertAnalysis
  | touchThread
  | saveMemory
  deriving DecidableEq, Repr

/-- Where an execution waits while others commit: for the provider, after a conflict in
the first round, before it stores what it has assembled, and for the row of the latest analysis
that it supersedes. -/
inductive Await where
  | provider | conflict | store | latest
  deriving DecidableEq, Repr

/-- All that one execution does not decide: settings and services, the errors of
the database that its flushes run into, what other transactions commit meanwhile, the identifiers it
draws and the clock. -/
structure Environment where
  llmMaxAttempts : ℤ
  getProvider : Except String LLMProvider
  renderCompiledPrompt : CompiledJungianPrompt → String
  parseResponse : String → Except String String
  validateAnalysisOutput : String → Except String String
  buildMemoryPrompt : DreamSession → Dream → String
  validateMemory : String → Except String StructuredDreamMemoryV1
  lower : String → String
  conflict : Flush → Option String
  meanwhile : Await → Database → Database
  summaryId : Uuid
  threadId : Bool → Uuid
  analysisId : Uuid
  memoryId : Uuid
  startedAt : Time
  resolvedAt : Time
  persistedAt : Time
  finishedAt : Time

abbrev Run : Type → Type := Tx Database Exc

namespace Environment

variable (env : Environment)

/-- What others commit; the jobs are left alone. -/
def committing (await : Await) (db : Database) : Database :=
  { env.meanwhile await db with jobs := db.jobs }

def waited (await : Await) (s : AsyncSession Database) : AsyncSession Database :=
  { s with tables := env.committing await s.tables, committed := env.committing await s.committed }

/-- The commits of others; the jobs are left alone. -/
def others (await : Await) : Run Unit :=
  Tx.interleave fun db => { env.meanwhile await db with jobs := db.jobs }

/-- A flush of `f`. -/
def flush (site : Flush) (f : Database → Database) : Run Unit :=
  Tx.flush (fun _ => env.conflict site) f

def generate (prompt promptVersion : String) (temperature : Option ℚ) :
    Run ProviderRawResponse := do
  let llm ← Tx.lift (env.getProvider.mapError .other)
  env.others .provider
  Tx.lift ((generateWithRetry env.llmMaxAttempts llm prompt promptVersion temperature).mapError
    .ofProvider)

theorem others_ok (await : Await) (s : AsyncSession Database) :
    env.others await s = (.ok (), env.waited await s) := rfl

theorem flush_ok {env : Environment} {site : Flush} {f : Database → Database}
    {s : AsyncSession Database} (hs : s.usable = true) (h : env.conflict site = none) :
    env.flush site f s = (.ok (), { s with tables := f s.tables }) := Tx.flush_ok hs h

theorem flush_conflict {env : Environment} {site : Flush} {f : Database → Database}
    {s : AsyncSession Database} {message : String} (hs : s.usable = true)
    (h : env.conflict site = some message) :
    env.flush site f s = (.error (.integrity message), { s with usable := false }) :=
  Tx.flush_conflict hs h

theorem breaks_flush {env : Environment} {site : Flush} {f : Database → Database}
    {s : AsyncSession Database} (hs : s.usable = true) (h : env.conflict site ≠ none) :
    Tx.Breaks (env.flush site f) s := by
  obtain ⟨message, h⟩ := Option.ne_none_iff_exists'.mp h
  exact .flush hs h

end Environment

/-! ### What is left alone -/

/-- The jobs are those of `db`. -/
def SameJobs (db db' : Database) : Prop := db'.jobs = db.jobs

namespace Environment

variable {env : Environment} {P : Database → Prop} {safe : Prop}

theorem keeps_others (hP : ∀ await db, P db → P (env.committing await db)) (await : Await) :
    Tx.Keeps P safe (env.others await) :=
  .interleave (hP await)

theorem keeps_generate (hP : ∀ await db, P db → P (env.committing await db))
    (prompt promptVersion : String) (temperature : Option ℚ) :
    Tx.Keeps P safe (env.generate prompt promptVersion temperature) :=
  .bind (.lift _) fun _ => .bind (keeps_others hP _) fun _ => .lift _

end Environment

end LiberNovus

import LiberNovus.Config.RuntimeConfig
import LiberNovus.Foundation.Checks

/-! What loading a configuration ends in. The settings are read one after another; the texts of
the numbers and the URLs are given to `int`, `float` and `urlparse` without a guard, and a NaN
is below no minimum.

Proved: loading raises the declared error or returns a configuration that is safe exactly when
the first setting that is not accepted is refused, or all are accepted and none is NaN. -/

namespace LiberNovus.Config

open Prompts Text Dialogue Checks Results

/-! ### Safe configurations -/

/-- A number that is not below the minimum. -/
def AtLeast (minimum x : Float.Model) : Prop := x.isNaN = false ∧ ¬ x < minimum

instance (minimum x : Float.Model) : Decidable (AtLeast minimum x) :=
  inferInstanceAs (Decidable (_ ∧ _))

/-- What a configuration promises. -/
structure RuntimeConfig.Safe (config : RuntimeConfig) : Prop where
  provider : config.llmProvider ∈ knownLlmProviders
  llmMaxAttempts : 1 ≤ config.llmMaxAttempts
  openaiTimeoutSeconds : AtLeast oneSecond config.openaiTimeoutSeconds
  analysisWorkerConcurrency : 1 ≤ config.analysisWorkerConcurrency
  analysisWorkerBatchSize : 1 ≤ config.analysisWorkerBatchSize
  analysisWorkerPollInterval : AtLeast hundredth config.analysisWorkerPollInterval
  analysisJobMaxAttempts : 1 ≤ config.analysisJobMaxAttempts
  analysisJobStaleTimeoutSeconds : 1 ≤ config.analysisJobStaleTimeoutSeconds
  databaseUrl : config.databaseUrl ≠ ""
  databaseUrlPsycopg2 : config.databaseUrlPsycopg2 ≠ ""
  test : config.envMode = .testMode →
    config.llmProvider = "mock" ∧ config.runtimeEnabled = false ∧ config.openaiApiKey = none
  prod : config.envMode = .prodMode → config.llmProvider ≠ "mock" ∧
    (∃ key, config.openaiApiKey = some key ∧ key ≠ "") ∧ config.runtimeEnabled = true

/-- Loading ends in the declared error or in a safe configuration. -/
def LoadsSafely : Except LoadError RuntimeConfig → Prop
  | .ok config => config.Safe
  | .error (.config _) => True
  | .error (.value _) => False

/-! ### The verdicts on the settings -/

/-- `ConfigValidationError` is the declared error. -/
def LoadError.isConfig : LoadError → Bool
  | .config _ => true
  | .value _ => false

/-- An integer is broken when `int` does not read it, and refused below its minimum. -/
def intVerdict (raw : Option String) (minimum : ℤ) : Verdict :=
  match raw with
  | none => .passed
  | some raw => match pyInt raw.toList with
    | .error _ => .broken
    | .ok n => if n < minimum then .refused else .passed

/-- A float is broken when `float` does not read it, and refused below its minimum. -/
def floatVerdict (raw : Option String) (minimum : Float.Model) : Verdict :=
  match raw with
  | none => .passed
  | some raw => match pyFloat raw.toList with
    | none => .broken
    | some x => if x < minimum then .refused else .passed

/-- The setting is there and is NaN. -/
def IsNaN (raw : Option String) : Prop :=
  ∃ text x, raw = some text ∧ pyFloat text.toList = some x ∧ x.isNaN = true

/-- A text that is required is refused when it is blank. -/
def requiredVerdict (raw : Option String) : Verdict :=
  if stripped (raw.getD "") = "" then .refused else .passed

/-- A URL is broken when `urlparse` raises, and refused without `http` and a location. -/
def urlVerdict [NetlocTable] (url : String) : Verdict :=
  match urlparse (stripped url).toList with
  | .error _ => .broken
  | .ok (scheme, netloc) =>
    if scheme ∉ ["http".toList, "https".toList] ∨ netloc = [] then .refused else .passed

section Settings

variable [CaseTable] (env : String → Option String)

def modeText : String := lowered ((env "ENV_MODE").getD "local")

def modeVerdict : Verdict :=
  if modeText env ∈ ["local", "test", "prod"] then .passed else .refused

/-- The provider counts outside of the mode `test` alone. -/
def providerVerdict : Verdict :=
  if modeText env = "test" ∨ lowered ((env "LLM_PROVIDER").getD "mock") ∈ knownLlmProviders then
    .passed
  else .refused

/-- The mode `prod` needs a key, a provider and the runtime. -/
def prodVerdict : Verdict :=
  if modeText env = "prod" ∧ (stripped ((env "OPENAI_API_KEY").getD "") = "" ∨
      lowered ((env "LLM_PROVIDER").getD "mock") = "mock" ∨
      ¬ parseBool (env "ANALYSIS_RUNTIME_ENABLED") false) then .refused
  else .passed

/-- The settings in the order in which they are read. -/
def verdicts [NetlocTable] : List Verdict :=
  [modeVerdict env,
    intVerdict (env "LLM_MAX_ATTEMPTS") 1,
    floatVerdict (env "OPENAI_TIMEOUT_SECONDS") oneSecond,
    requiredVerdict (env "DATABASE_URL"),
    requiredVerdict (env "DATABASE_URL_PSYCOPG2"),
    intVerdict (env "ANALYSIS_WORKER_CONCURRENCY") 1,
    intVerdict (env "ANALYSIS_WORKER_BATCH_SIZE") 1,
    floatVerdict (env "ANALYSIS_WORKER_POLL_INTERVAL") hundredth,
    intVerdict (env "ANALYSIS_JOB_MAX_ATTEMPTS") 1,
    intVerdict (env "ANALYSIS_JOB_STALE_TIMEOUT_SECONDS") 1,
    providerVerdict env,
    urlVerdict ((env "OPENAI_BASE_URL").getD "https://api.openai.com/v1"),
    urlVerdict ((env "LOCAL_LLM_BASE_URL").getD "http://localhost:1234/v1"),
    prodVerdict env]

/-- The first setting that is not accepted is refused, or all are accepted and no float is
NaN. -/
def Sound [NetlocTable] : Prop :=
  first (verdicts env) = .refused ∨
    (∀ v ∈ verdicts env, v = .passed) ∧ ¬ IsNaN (env "OPENAI_TIMEOUT_SECONDS") ∧
      ¬ IsNaN (env "ANALYSIS_WORKER_POLL_INTERVAL")

end Settings

/-! ### Single settings -/

section Parsers

variable {raw : Option String}

theorem verdict_parseInt {default minimum : ℤ} (h : minimum ≤ default) :
    verdict LoadError.isConfig (parseInt raw default minimum) = intVerdict raw minimum := by
  cases raw with
  | none => simp [parseInt, readInt, intVerdict, bind, Except.bind, Int.not_lt.mpr h, verdict]
  | some raw =>
    unfold parseInt readInt intVerdict
    dsimp only
    cases pyInt raw.toList with
    | error e => rfl
    | ok n =>
      by_cases hn : n < minimum <;> simp [bind, Except.bind, hn, verdict, LoadError.isConfig]

theorem parseInt_ok {default minimum n : ℤ} (h : parseInt raw default minimum = .ok n) :
    minimum ≤ n := by
  obtain ⟨value, -, h⟩ := bind_eq_ok.mp h
  split at h
  · cases h
  · next hn =>
    cases h
    exact Int.not_lt.mp hn

theorem verdict_parseFloat {default minimum : Float.Model} (h : ¬ default < minimum) :
    verdict LoadError.isConfig (parseFloat raw default minimum) = floatVerdict raw minimum := by
  cases raw with
  | none => simp [parseFloat, readFloat, floatVerdict, bind, Except.bind, h, verdict]
  | some raw =>
    unfold parseFloat readFloat floatVerdict
    dsimp only
    cases pyFloat raw.toList with
    | none => rfl
    | some x =>
      by_cases hx : x < minimum <;> simp [bind, Except.bind, hx, verdict, LoadError.isConfig]

theorem parseFloat_ok {default minimum x : Float.Model} (hd : default.isNaN = false)
    (h : parseFloat raw default minimum = .ok x) : AtLeast minimum x ↔ ¬ IsNaN raw := by
  obtain ⟨value, hvalue, h⟩ := bind_eq_ok.mp h
  split at h <;> cases h
  next hx =>
  have hnan : x.isNaN = true ↔ IsNaN raw := by
    cases raw with
    | none =>
      cases hvalue
      simp [IsNaN, hd]
    | some raw =>
      unfold readFloat at hvalue
      cases hread : pyFloat raw.toList with
      | none =>
        simp only [hread] at hvalue
        cases hvalue
      | some y =>
        simp only [hread] at hvalue
        cases hvalue
        simp [IsNaN, hread]
  rw [AtLeast, ← hnan, Bool.not_eq_true]
  exact and_iff_left hx

theorem verdict_requireStr (env : String → Option String) (key : String) :
    verdict LoadError.isConfig (requireStr env key) = requiredVerdict (env key) := by
  unfold requireStr requiredVerdict
  dsimp only
  split <;> rfl

theorem requireStr_ok {env : String → Option String} {key value : String}
    (h : requireStr env key = .ok value) : value ≠ "" := by
  unfold requireStr at h
  dsimp only at h
  split at h <;> cases h
  assumption

theorem verdict_validateUrl [NetlocTable] (url fieldName : String) :
    verdict LoadError.isConfig (validateUrl (stripped url) fieldName) = urlVerdict url := by
  unfold validateUrl urlVerdict
  cases urlparse (stripped url).toList with
  | error message => rfl
  | ok parts =>
    dsimp only
    split <;> rfl

theorem verdict_refuse (refused : Prop) [Decidable refused] (e : ConfigValidationError) :
    verdict LoadError.isConfig (refuse refused e) = if refused then .refused else .passed := by
  unfold refuse
  split <;> rfl

theorem missing_optionalStr (raw : Option String) :
    missing (optionalStr raw) = true ↔ stripped (raw.getD "") = "" := by
  cases raw with
  | none => decide
  | some raw => by_cases h : stripped raw = "" <;> simp [optionalStr, missing, h]

theorem verdict_parseEnvMode [CaseTable] (env : String → Option String) :
    verdict LoadError.isConfig (parseEnvMode ((env "ENV_MODE").getD "local")) = modeVerdict env := by
  unfold parseEnvMode modeVerdict modeText
  split_ifs <;> simp_all [verdict, LoadError.isConfig]

theorem parseEnvMode_ok [CaseTable] {env : String → Option String} {mode : EnvMode}
    (h : parseEnvMode ((env "ENV_MODE").getD "local") = .ok mode) :
    (mode = .testMode ↔ modeText env = "test") ∧ (mode = .prodMode ↔ modeText env = "prod") := by
  unfold parseEnvMode at h
  unfold modeText
  split_ifs at h <;> cases h <;> simp_all

end Parsers

/-! ### Loading -/

section Loading

variable [CaseTable] {env : String → Option String} {config : RuntimeConfig}

/-- What resolving has made of the environment. -/
structure Resolved (env : String → Option String) (config : RuntimeConfig) : Prop where
  test : config.envMode = .testMode ↔ modeText env = "test"
  prod : config.envMode = .prodMode ↔ modeText env = "prod"
  provider : config.llmProvider = if modeText env = "test" then "mock"
    else lowered ((env "LLM_PROVIDER").getD "mock")
  runtime : config.runtimeEnabled = if modeText env = "test" then false
    else parseBool (env "ANALYSIS_RUNTIME_ENABLED") false
  key : config.openaiApiKey = if modeText env = "test" then none
    else optionalStr (env "OPENAI_API_KEY")
  openaiBaseUrl : config.openaiBaseUrl =
    stripped ((env "OPENAI_BASE_URL").getD "https://api.openai.com/v1")
  localLlmBaseUrl : config.localLlmBaseUrl =
    stripped ((env "LOCAL_LLM_BASE_URL").getD "http://localhost:1234/v1")
  llmMaxAttempts : 1 ≤ config.llmMaxAttempts
  openaiTimeoutSeconds :
    AtLeast oneSecond config.openaiTimeoutSeconds ↔ ¬ IsNaN (env "OPENAI_TIMEOUT_SECONDS")
  analysisWorkerConcurrency : 1 ≤ config.analysisWorkerConcurrency
  analysisWorkerBatchSize : 1 ≤ config.analysisWorkerBatchSize
  analysisWorkerPollInterval : AtLeast hundredth config.analysisWorkerPollInterval ↔
    ¬ IsNaN (env "ANALYSIS_WORKER_POLL_INTERVAL")
  analysisJobMaxAttempts : 1 ≤ config.analysisJobMaxAttempts
  analysisJobStaleTimeoutSeconds : 1 ≤ config.analysisJobStaleTimeoutSeconds
  databaseUrl : config.databaseUrl ≠ ""
  databaseUrlPsycopg2 : config.databaseUrlPsycopg2 ≠ ""

theorem resolved_of_ok (h : resolveRuntimeConfig env = .ok config) : Resolved env config := by
  obtain ⟨mode, hmode, h⟩ := bind_eq_ok.mp h
  obtain ⟨attempts, hattempts, h⟩ := bind_eq_ok.mp h
  obtain ⟨timeout, htimeout, h⟩ := bind_eq_ok.mp h
  obtain ⟨url, hurl, h⟩ := bind_eq_ok.mp h
  obtain ⟨url', hurl', h⟩ := bind_eq_ok.mp h
  obtain ⟨concurrency, hconcurrency, h⟩ := bind_eq_ok.mp h
  obtain ⟨batch, hbatch, h⟩ := bind_eq_ok.mp h
  obtain ⟨poll, hpoll, h⟩ := bind_eq_ok.mp h
  obtain ⟨jobs, hjobs, h⟩ := bind_eq_ok.mp h
  obtain ⟨stale, hstale, h⟩ := bind_eq_ok.mp h
  cases h
  obtain ⟨htest, hprod⟩ := parseEnvMode_ok hmode
  exact
    { test := htest
      prod := hprod
      provider := by simp only [htest]
      runtime := by simp only [htest]
      key := by simp only [htest]
      openaiBaseUrl := rfl
      localLlmBaseUrl := rfl
      llmMaxAttempts := parseInt_ok hattempts
      openaiTimeoutSeconds := parseFloat_ok (by decide) htimeout
      analysisWorkerConcurrency := parseInt_ok hconcurrency
      analysisWorkerBatchSize := parseInt_ok hbatch
      analysisWorkerPollInterval := parseFloat_ok (by decide) hpoll
      analysisJobMaxAttempts := parseInt_ok hjobs
      analysisJobStaleTimeoutSeconds := parseInt_ok hstale
      databaseUrl := requireStr_ok hurl
      databaseUrlPsycopg2 := requireStr_ok hurl' }

theorem verdict_resolveRuntimeConfig (env : String → Option String) :
    verdict LoadError.isConfig (resolveRuntimeConfig env) =
      first [modeVerdict env, intVerdict (env "LLM_MAX_ATTEMPTS") 1,
        floatVerdict (env "OPENAI_TIMEOUT_SECONDS") oneSecond,
        requiredVerdict (env "DATABASE_URL"), requiredVerdict (env "DATABASE_URL_PSYCOPG2"),
        intVerdict (env "ANALYSIS_WORKER_CONCURRENCY") 1,
        intVerdict (env "ANALYSIS_WORKER_BATCH_SIZE") 1,
        floatVerdict (env "ANALYSIS_WORKER_POLL_INTERVAL") hundredth,
        intVerdict (env "ANALYSIS_JOB_MAX_ATTEMPTS") 1,
        intVerdict (env "ANALYSIS_JOB_STALE_TIMEOUT_SECONDS") 1] := by
  refine verdict_bind (verdict_parseEnvMode env) fun mode _ => ?_
  refine verdict_bind (verdict_parseInt (by decide)) fun attempts _ => ?_
  refine verdict_bind (verdict_parseFloat (by decide)) fun timeout _ => ?_
  refine verdict_bind (verdict_requireStr env _) fun url _ => ?_
  refine verdict_bind (verdict_requireStr env _) fun url' _ => ?_
  refine verdict_bind (verdict_parseInt (by decide)) fun concurrency _ => ?_
  refine verdict_bind (verdict_parseInt (by decide)) fun batch _ => ?_
  refine verdict_bind (verdict_parseFloat (by decide)) fun poll _ => ?_
  refine verdict_bind (verdict_parseInt (by decide)) fun jobs _ => ?_
  exact verdict_bind (verdict_parseInt (by decide)) fun stale _ => rfl

theorem verdict_validateConfig [NetlocTable] (h : Resolved env config) :
    verdict LoadError.isConfig (validateConfig config) =
      first [providerVerdict env,
        urlVerdict ((env "OPENAI_BASE_URL").getD "https://api.openai.com/v1"),
        urlVerdict ((env "LOCAL_LLM_BASE_URL").getD "http://localhost:1234/v1"), prodVerdict env] := by
  have hprovider : verdict LoadError.isConfig (refuse (config.llmProvider ∉ knownLlmProviders)
      (.provider config.llmProvider)) = providerVerdict env := by
    rw [verdict_refuse, providerVerdict, h.provider]
    by_cases htest : modeText env = "test"
    · simp only [htest, if_true, true_or]
      decide
    · by_cases hin : lowered ((env "LLM_PROVIDER").getD "mock") ∈ knownLlmProviders <;>
        simp [htest, hin]
  refine verdict_bind hprovider fun _ _ => ?_
  rw [h.openaiBaseUrl, h.localLlmBaseUrl]
  refine verdict_bind (verdict_validateUrl _ _) fun _ _ => ?_
  refine verdict_bind (verdict_validateUrl _ _) fun _ _ => ?_
  rw [refuse, if_neg h.databaseUrl, refuse, if_neg h.databaseUrlPsycopg2]
  simp only [bind, Except.bind]
  cases hmode : config.envMode with
  | testMode =>
    have htest := h.test.mp hmode
    have hprod : modeText env ≠ "prod" := by simp [htest]
    simp [refuse, h.provider, h.runtime, htest, verdict, prodVerdict, first]
  | prodMode =>
    have hprod := h.prod.mp hmode
    have htest : modeText env ≠ "test" := by simp [hprod]
    have hkey := missing_optionalStr (env "OPENAI_API_KEY")
    have hprodConfig : verdict LoadError.isConfig (validateProdConfig config) = prodVerdict env := by
      simp only [prodVerdict, hprod, true_and, ← hkey]
      simp only [validateProdConfig, refuse, h.provider, h.runtime, h.key, htest, if_false]
      by_cases hmissing : missing (optionalStr (env "OPENAI_API_KEY")) = true
      · simp [hmissing, bind, Except.bind, verdict, LoadError.isConfig]
      · by_cases hmock : lowered ((env "LLM_PROVIDER").getD "mock") = "mock"
        · simp [hmissing, hmock, bind, Except.bind, verdict, LoadError.isConfig]
        · by_cases hrun : parseBool (env "ANALYSIS_RUNTIME_ENABLED") false = true <;>
            simp [hmissing, hmock, hrun, bind, Except.bind, verdict, LoadError.isConfig]
    exact verdict_bind hprodConfig fun _ _ => rfl
  | localMode =>
    have hprod : modeText env ≠ "prod" := fun hp => by simp [h.prod.mpr hp] at hmode
    simp [verdict, prodVerdict, hprod, first]

theorem verdict_loadRuntimeConfig [NetlocTable] (env : String → Option String) :
    verdict LoadError.isConfig (loadRuntimeConfig env) = first (verdicts env) := by
  have hload := verdict_bind (verdict_resolveRuntimeConfig env) (f := fun config => do
    let _ ← validateConfig config
    .ok config) (l := _) fun config hconfig => by
      have hrest := verdict_bind (verdict_validateConfig (resolved_of_ok hconfig))
        (f := fun _ => (.ok config : Except LoadError RuntimeConfig)) (l := []) fun _ _ => rfl
      rwa [← first_append] at hrest
  rw [← first_append] at hload
  exact hload

/-- A configuration that is returned is safe but for a NaN. -/
theorem Resolved.safe_iff (h : Resolved env config) (hprovider : providerVerdict env = .passed)
    (hprod : prodVerdict env = .passed) : config.Safe ↔
      ¬ IsNaN (env "OPENAI_TIMEOUT_SECONDS") ∧ ¬ IsNaN (env "ANALYSIS_WORKER_POLL_INTERVAL") := by
  constructor
  · exact fun hs => ⟨h.openaiTimeoutSeconds.mp hs.openaiTimeoutSeconds,
      h.analysisWorkerPollInterval.mp hs.analysisWorkerPollInterval⟩
  · rintro ⟨htimeout, hpoll⟩
    refine
      { provider := ?_
        llmMaxAttempts := h.llmMaxAttempts
        openaiTimeoutSeconds := h.openaiTimeoutSeconds.mpr htimeout
        analysisWorkerConcurrency := h.analysisWorkerConcurrency
        analysisWorkerBatchSize := h.analysisWorkerBatchSize
        analysisWorkerPollInterval := h.analysisWorkerPollInterval.mpr hpoll
        analysisJobMaxAttempts := h.analysisJobMaxAttempts
        analysisJobStaleTimeoutSeconds := h.analysisJobStaleTimeoutSeconds
        databaseUrl := h.databaseUrl
        databaseUrlPsycopg2 := h.databaseUrlPsycopg2
        test := fun hmode => ?_
        prod := fun hmode => ?_ }
    · rw [h.provider]
      by_cases htest : modeText env = "test"
      · rw [if_pos htest]
        decide
      · rw [if_neg htest]
        simpa [providerVerdict, htest] using hprovider
    · have htest := h.test.mp hmode
      simp [h.provider, h.runtime, h.key, htest]
    · have hmode := h.prod.mp hmode
      have htest : modeText env ≠ "test" := by simp [hmode]
      have hrules : ¬ (stripped ((env "OPENAI_API_KEY").getD "") = "" ∨
          lowered ((env "LLM_PROVIDER").getD "mock") = "mock" ∨
          ¬ parseBool (env "ANALYSIS_RUNTIME_ENABLED") false = true) := by
        simpa [prodVerdict, hmode] using hprod
      rw [not_or, not_or, not_not, ← missing_optionalStr] at hrules
      obtain ⟨hkey, hmock, hrun⟩ := hrules
      rw [h.provider, h.runtime, h.key, if_neg htest, if_neg htest, if_neg htest]
      refine ⟨hmock, ?_, hrun⟩
      cases hopt : optionalStr (env "OPENAI_API_KEY") with
      | none => exact absurd (by rw [hopt]; rfl) hkey
      | some key => exact ⟨key, rfl, fun hempty => hkey (by rw [hopt, hempty]; rfl)⟩

/-- Loading ends in the declared error or in a safe configuration exactly when the first setting
that is not accepted is refused, or all are accepted and no float is NaN. -/
theorem loadsSafely_iff_sound [NetlocTable] (env : String → Option String) :
    LoadsSafely (loadRuntimeConfig env) ↔ Sound env := by
  have hverdict := verdict_loadRuntimeConfig env
  cases hload : loadRuntimeConfig env with
  | error e =>
    rw [hload] at hverdict
    cases e with
    | config e => exact iff_of_true trivial (.inl hverdict.symm)
    | value message =>
      have hbroken : first (verdicts env) = .broken := hverdict.symm
      refine iff_of_false id ?_
      rintro (hrefused | ⟨hpassed, -⟩)
      · rw [hbroken] at hrefused
        cases hrefused
      · rw [first_eq_passed.mpr hpassed] at hbroken
        cases hbroken
  | ok config =>
    rw [hload] at hverdict
    have hpassed : first (verdicts env) = .passed := hverdict.symm
    have hall := first_eq_passed.mp hpassed
    obtain ⟨resolved, hresolved, h⟩ := bind_eq_ok.mp hload
    obtain ⟨warnings, -, h⟩ := bind_eq_ok.mp h
    cases h
    have hsafe := (resolved_of_ok hresolved).safe_iff (hall _ (by simp [verdicts]))
      (hall _ (by simp [verdicts]))
    refine hsafe.trans ⟨fun hnan => .inr ⟨hall, hnan⟩, ?_⟩
    rintro (hrefused | ⟨-, hnan⟩)
    · rw [hpassed] at hrefused
      cases hrefused
    · exact hnan

end Loading

/-! ### Example -/

section Example

local instance letters : CaseTable :=
  ⟨fun text => text.map lowerLatin, fun a b => lowerLatin a == lowerLatin b⟩

local instance locations : NetlocTable := ⟨fun _ => none⟩

/-- The two database URLs, and one more setting. -/
def environment (name value key : String) : Option String :=
  if key = name then some value
  else if key ∈ ["DATABASE_URL", "DATABASE_URL_PSYCOPG2"] then some "postgresql://localhost/db"
  else none

/-- An integer that is not one raises the error of `int`. -/
theorem attempts_unreadable : ¬ ∀ env, LoadsSafely (loadRuntimeConfig env) := by
  intro h
  have hraise : loadRuntimeConfig (environment "LLM_MAX_ATTEMPTS" "two") =
      .error (.value "invalid literal for int(): two") := by
    decide
  have hsafe := h (environment "LLM_MAX_ATTEMPTS" "two")
  rw [hraise] at hsafe
  exact hsafe

/-- A timeout that is NaN is taken. -/
example : (match loadRuntimeConfig (environment "OPENAI_TIMEOUT_SECONDS" "nan") with
    | .ok config => config.openaiTimeoutSeconds.isNaN
    | .error _ => false) = true := by
  decide

end Example

end LiberNovus.Config

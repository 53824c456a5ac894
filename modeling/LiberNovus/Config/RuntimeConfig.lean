import LiberNovus.Config.Values
import LiberNovus.Dialogue.Policy

/-! The configuration of the runtime, resolved from environment variables and validated. The
environment maps the name of a variable to its value. -/

namespace LiberNovus.Config

open Prompts Text Dialogue

inductive EnvMode where
  | localMode | testMode | prodMode
  deriving DecidableEq, Repr

/-- `KNOWN_LLM_PROVIDERS`, sorted. -/
def knownLlmProviders : List String :=
  ["lm-studio", "local", "mock", "ollama", "openai", "openai-compatible", "openrouter"]

def openaiCompatibleProviders : List String :=
  ["openai-compatible", "local", "openrouter", "lm-studio", "ollama"]

inductive ConfigValidationError where
  | envMode (raw : String)
  | integer (minimum value : ℤ)
  | float (minimum value : Float.Model)
  | required (key : String)
  | provider (name : String)
  | url (fieldName url : String)
  | message (text : String)
  deriving DecidableEq

/-- `str` of it; `floatText` is that of a `float`. -/
def ConfigValidationError.text (floatText : Float.Model → String) : ConfigValidationError → String
  | .envMode raw => s!"Invalid ENV_MODE '{raw}'. Allowed: local, test, prod"
  | .integer minimum value => s!"Expected integer >= {minimum}, got {value}"
  | .float minimum value =>
    "Expected float >= " ++ floatText minimum ++ ", got " ++ floatText value
  | .required key => s!"{key} is required"
  | .provider name => s!"Invalid LLM_PROVIDER '{name}'. Allowed: [" ++
      ", ".intercalate (knownLlmProviders.map fun known => "'" ++ known ++ "'") ++ "]"
  | .url fieldName value => s!"{fieldName} must be a valid http(s) URL, got '{value}'"
  | .message content => content

/-- What loading raises: the declared error, or the `ValueError` of `int`, `float` or
`urlparse`. -/
inductive LoadError where
  | config (e : ConfigValidationError)
  | value (message : String)
  deriving DecidableEq

structure RuntimeConfig where
  envMode : EnvMode
  llmProvider : String
  openaiApiKey : Option String
  openaiBaseUrl : String
  localLlmBaseUrl : String
  defaultModel : String
  llmMaxAttempts : ℤ
  openaiTimeoutSeconds : Float.Model
  runtimeEnabled : Bool
  analysisWorkerConcurrency : ℤ
  analysisWorkerBatchSize : ℤ
  analysisWorkerPollInterval : Float.Model
  analysisJobMaxAttempts : ℤ
  analysisJobStaleTimeoutSeconds : ℤ
  databaseUrl : String
  databaseUrlPsycopg2 : String
  tracebackOutputEnabled : Bool
  otlpGrpcEndpoint : String
  deriving DecidableEq

/-! ### Parsers -/

/-- `raw.strip()`. -/
def stripped (raw : String) : String := String.ofList (strip raw.toList)

def readInt (raw : Option String) (default : ℤ) : Except LoadError ℤ :=
  match raw with
  | none => .ok default
  | some raw => match pyInt raw.toList with
    | .ok n => .ok n
    | .error _ => .error (.value s!"invalid literal for int(): {raw}")

def parseInt (raw : Option String) (default minimum : ℤ) : Except LoadError ℤ := do
  let value ← readInt raw default
  if value < minimum then .error (.config (.integer minimum value)) else .ok value

def readFloat (raw : Option String) (default : Float.Model) : Except LoadError Float.Model :=
  match raw with
  | none => .ok default
  | some raw => match pyFloat raw.toList with
    | some x => .ok x
    | none => .error (.value s!"could not convert string to float: {raw}")

def parseFloat (raw : Option String) (default minimum : Float.Model) :
    Except LoadError Float.Model := do
  let value ← readFloat raw default
  if value < minimum then .error (.config (.float minimum value)) else .ok value

def requireStr (env : String → Option String) (key : String) : Except LoadError String :=
  let value := stripped ((env key).getD "")
  if value = "" then .error (.config (.required key)) else .ok value

def optionalStr : Option String → Option String
  | none => none
  | some raw => if stripped raw = "" then none else some (stripped raw)

def validateUrl [NetlocTable] (url fieldName : String) : Except LoadError Unit :=
  match urlparse url.toList with
  | .error message => .error (.value message)
  | .ok (scheme, netloc) =>
    if scheme ∉ ["http".toList, "https".toList] ∨ netloc = [] then
      .error (.config (.url fieldName url))
    else .ok ()

section Case

variable [CaseTable]

/-- `raw.strip().lower()`. -/
def lowered (raw : String) : String := String.ofList (CaseTable.lower (strip raw.toList))

def parseEnvMode (raw : String) : Except LoadError EnvMode :=
  if lowered raw = "local" then .ok .localMode
  else if lowered raw = "test" then .ok .testMode
  else if lowered raw = "prod" then .ok .prodMode
  else .error (.config (.envMode raw))

def parseBool (raw : Option String) (default : Bool) : Bool :=
  match raw with
  | none => default
  | some raw => lowered raw ∈ ["true", "1", "yes"]

/-! ### Loading -/

/-- The literals `30.0`, `1.0` and `0.01`. -/
def thirtySeconds : Float.Model := Float.Model.ofScientific 30 0
def oneSecond : Float.Model := Float.Model.ofScientific 1 0
def hundredth : Float.Model := Float.Model.ofScientific 1 (-2)

def resolveRuntimeConfig (env : String → Option String) : Except LoadError RuntimeConfig := do
  let envMode ← parseEnvMode ((env "ENV_MODE").getD "local")
  let llmMaxAttempts ← parseInt (env "LLM_MAX_ATTEMPTS") 2 1
  let openaiTimeoutSeconds ← parseFloat (env "OPENAI_TIMEOUT_SECONDS") thirtySeconds oneSecond
  let databaseUrl ← requireStr env "DATABASE_URL"
  let databaseUrlPsycopg2 ← requireStr env "DATABASE_URL_PSYCOPG2"
  let analysisWorkerConcurrency ← parseInt (env "ANALYSIS_WORKER_CONCURRENCY") 1 1
  let analysisWorkerBatchSize ← parseInt (env "ANALYSIS_WORKER_BATCH_SIZE") 1 1
  let analysisWorkerPollInterval ←
    parseFloat (env "ANALYSIS_WORKER_POLL_INTERVAL") oneSecond hundredth
  let analysisJobMaxAttempts ← parseInt (env "ANALYSIS_JOB_MAX_ATTEMPTS") 1 1
  let analysisJobStaleTimeoutSeconds ← parseInt (env "ANALYSIS_JOB_STALE_TIMEOUT_SECONDS") 180 1
  .ok
    { envMode := envMode
      -- the mode `test` overrides three settings
      llmProvider := if envMode = .testMode then "mock" else lowered ((env "LLM_PROVIDER").getD "mock")
      runtimeEnabled := if envMode = .testMode then false
        else parseBool (env "ANALYSIS_RUNTIME_ENABLED") false
      openaiApiKey := if envMode = .testMode then none else optionalStr (env "OPENAI_API_KEY")
      openaiBaseUrl := stripped ((env "OPENAI_BASE_URL").getD "https://api.openai.com/v1")
      localLlmBaseUrl := stripped ((env "LOCAL_LLM_BASE_URL").getD "http://localhost:1234/v1")
      defaultModel := stripped ((env "DEFAULT_MODEL").getD "gpt-4o-mini")
      llmMaxAttempts := llmMaxAttempts
      openaiTimeoutSeconds := openaiTimeoutSeconds
      analysisWorkerConcurrency := analysisWorkerConcurrency
      analysisWorkerBatchSize := analysisWorkerBatchSize
      analysisWorkerPollInterval := analysisWorkerPollInterval
      analysisJobMaxAttempts := analysisJobMaxAttempts
      analysisJobStaleTimeoutSeconds := analysisJobStaleTimeoutSeconds
      databaseUrl := databaseUrl
      databaseUrlPsycopg2 := databaseUrlPsycopg2
      tracebackOutputEnabled := parseBool (env "TRACEBACK_OUTPUT_ENABLED") false
      otlpGrpcEndpoint := stripped ((env "OTLP_GRPC_ENDPOINT").getD "http://localhost:4317") }

end Case

/-! ### Validation -/

/-- `not value`, for an optional text. -/
def missing (value : Option String) : Bool := value.getD "" = ""

/-- A check that raises the declared error. -/
def refuse (refused : Prop) [Decidable refused] (e : ConfigValidationError) : Except LoadError Unit :=
  if refused then .error (.config e) else .ok ()

def validateProdConfig (config : RuntimeConfig) : Except LoadError Unit := do
  refuse (missing config.openaiApiKey) (.message "ENV_MODE=prod requires OPENAI_API_KEY")
  refuse (config.llmProvider = "mock") (.message "ENV_MODE=prod forbids LLM_PROVIDER=mock")
  refuse (config.runtimeEnabled = false)
    (.message "ENV_MODE=prod requires ANALYSIS_RUNTIME_ENABLED=true")
  refuse (config.llmProvider ∈ openaiCompatibleProviders ∧ missing config.openaiApiKey)
    (.message "OpenAI-compatible provider in prod requires OPENAI_API_KEY")

/-- The warnings of `_validate_local_config`. -/
def validateLocalConfig (config : RuntimeConfig) : List String :=
  (if config.llmProvider = "openai" ∧ missing config.openaiApiKey then
    ["ENV_MODE=local with LLM_PROVIDER=openai but OPENAI_API_KEY is missing"] else []) ++
  (if config.llmProvider ∈ openaiCompatibleProviders ∧ missing config.openaiApiKey then
    [s!"ENV_MODE=local with LLM_PROVIDER={config.llmProvider} but OPENAI_API_KEY is missing"]
  else [])

/-- `validate_config`, with its warnings; the mode is one of the three by its type. -/
def validateConfig [NetlocTable] (config : RuntimeConfig) : Except LoadError (List String) := do
  refuse (config.llmProvider ∉ knownLlmProviders) (.provider config.llmProvider)
  validateUrl config.openaiBaseUrl "OPENAI_BASE_URL"
  validateUrl config.localLlmBaseUrl "LOCAL_LLM_BASE_URL"
  refuse (config.databaseUrl = "") (.message "DATABASE_URL is required")
  refuse (config.databaseUrlPsycopg2 = "") (.message "DATABASE_URL_PSYCOPG2 is required")
  match config.envMode with
  | .testMode => do
    refuse (config.llmProvider ≠ "mock") (.message "ENV_MODE=test requires LLM_PROVIDER=mock")
    refuse (config.runtimeEnabled = true)
      (.message "ENV_MODE=test requires ANALYSIS_RUNTIME_ENABLED=false")
    .ok []
  | .prodMode => do
    validateProdConfig config
    .ok []
  | .localMode => .ok (validateLocalConfig config)

/-- `load_runtime_config`, for a given environment. -/
def loadRuntimeConfig [CaseTable] [NetlocTable] (env : String → Option String) :
    Except LoadError RuntimeConfig := do
  let config ← resolveRuntimeConfig env
  let _ ← validateConfig config
  .ok config

end LiberNovus.Config

import LiberNovus.Session.Summary

/-! The intermediate representation of the analysis prompt: `compile_jungian_prompt`. The
prompt is rendered from it alone. -/

namespace LiberNovus.Prompts

open Session

structure ContextBlock where
  sessionId : Uuid
  userId : ℤ
  dreamCount : ℕ
  sessionDuration : String
  lastActivityAt : String
  deriving DecidableEq, Repr

structure DreamEntry where
  index : ℕ
  text : String
  timestamp : String
  deriving DecidableEq, Repr

structure SessionSummaryBlock where
  keySymbols : List String
  recurringWords : List String
  rawTextSample : String
  deriving DecidableEq, Repr

structure CompiledJungianPrompt where
  context : ContextBlock
  dreams : List DreamEntry
  summary : SessionSummaryBlock
  deriving DecidableEq, Repr

/-- The digits of `n`, at least `width` of them. -/
def padded (width : ℕ) (n : ℤ) : String :=
  let digits := toString n
  String.ofList (List.replicate (width - digits.length) '0') ++ digits

/-- Year, month and day of the proleptic Gregorian calendar, of the days since 1970. Years
are counted from March, in eras of 400. -/
def civil (days : ℤ) : ℤ × ℤ × ℤ :=
  let shifted := days + 719468
  let era := shifted / 146097
  let dayOfEra := shifted % 146097
  let yearOfEra := (dayOfEra - dayOfEra / 1460 + dayOfEra / 36524 - dayOfEra / 146096) / 365
  let dayOfYear := dayOfEra - (365 * yearOfEra + yearOfEra / 4 - yearOfEra / 100)
  let monthFromMarch := (5 * dayOfYear + 2) / 153
  let day := dayOfYear - (153 * monthFromMarch + 2) / 5 + 1
  let month := if monthFromMarch < 10 then monthFromMarch + 3 else monthFromMarch - 9
  let year := yearOfEra + era * 400 + (if month ≤ 2 then 1 else 0)
  (year, month, day)

/-- `strftime("%Y-%m-%d %H:%M:%S")`. -/
def strftime (t : Time) : String :=
  let total := t / 1000000
  let (year, month, day) := civil (total / 86400)
  let rest := total % 86400
  s!"{year}-{padded 2 month}-{padded 2 day}" ++
    s!" {padded 2 (rest / 3600)}:{padded 2 (rest % 3600 / 60)}:{padded 2 (rest % 60)}"

def formatDatetime : Option Time → String
  | none => "N/A"
  | some t => strftime t

/-- `_format_duration`; `int` drops the fraction of a second. -/
def formatDuration : Option ℤ → String
  | none => "N/A"
  | some duration =>
    let totalSeconds := duration.tdiv 1000000
    if totalSeconds < 0 then "N/A"
    else s!"{totalSeconds / 3600}h {totalSeconds % 3600 / 60}m {totalSeconds % 60}s"

def sortDreams (dreams : List Dream) : List Dream := dreams.insertionSort Dream.Precedes

def compileJungianPrompt (sessionSummary : SessionSummary) (dreams : List Dream)
    (lastActivityAt sessionCreatedAt : Option Time) : CompiledJungianPrompt where
  context :=
    { sessionId := sessionSummary.sessionId
      userId := sessionSummary.userId
      dreamCount := sessionSummary.dreamCount
      sessionDuration := formatDuration do return (← lastActivityAt) - (← sessionCreatedAt)
      lastActivityAt := formatDatetime lastActivityAt }
  dreams := (sortDreams dreams).zipIdx.map fun (dream, i) =>
    ⟨i + 1, dream.text, formatDatetime (some dream.createdAt)⟩
  summary :=
    { keySymbols := sessionSummary.keySymbols
      recurringWords := sessionSummary.recurringWords
      rawTextSample := sessionSummary.rawTextSample.getD "N/A" }

/-- The prompt of an analysis, as `prepare_session_analysis` compiles it. -/
def analysisPrompt (context : AnalysisInputContext) : CompiledJungianPrompt :=
  compileJungianPrompt context.sessionSummary context.dreams
    (some context.session.lastActivityAt) (some context.session.createdAt)

/-- The prompt has an entry for each dream. -/
theorem length_dreams (sessionSummary : SessionSummary) (dreams : List Dream)
    (lastActivityAt sessionCreatedAt : Option Time) :
    (compileJungianPrompt sessionSummary dreams lastActivityAt sessionCreatedAt).dreams.length =
      dreams.length := by
  simp [compileJungianPrompt, sortDreams, (List.perm_insertionSort _ _).length_eq]

/-- A coherent context gives a prompt that counts its own entries. -/
theorem dreamCount_of_coherent [CharTable] {context : AnalysisInputContext}
    (h : context.Coherent) :
    (analysisPrompt context).context.dreamCount = (analysisPrompt context).dreams.length := by
  have hc : context.sessionSummary.dreamCount = context.dreams.length := by
    rw [h]
    rfl
  rw [analysisPrompt, length_dreams]
  exact hc

end LiberNovus.Prompts

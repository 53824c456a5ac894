import Mathlib.Data.List.Sort
import LiberNovus.Session.Model

/-! The deterministic summary of a session, the table that caches it, and the input of
an analysis, which reads the cache. -/

namespace LiberNovus.Session

open Rows

/-- Which characters `str.isalnum` holds of, from the Unicode tables. -/
class CharTable where
  isAlnum : Char → Bool

/-! ### Words -/

/-- A character that `[а-яёa-z]` matches with `re.IGNORECASE`: the Latin and Cyrillic
letters, and the characters that fold to one of them. -/
def isLetter (c : Char) : Bool :=
  let n := c.toNat
  (0x41 ≤ n && n ≤ 0x5a) || (0x61 ≤ n && n ≤ 0x7a) || (0x410 ≤ n && n ≤ 0x44f) ||
    n == 0x401 || n == 0x451 || n == 0x130 || n == 0x131 || n == 0x17f || n == 0x212a ||
    (0x1c80 ≤ n && n ≤ 0x1c86)

/-- `\w`. -/
def isWordChar [CharTable] (c : Char) : Bool := isLetter c || c == '_' || CharTable.isAlnum c

/-- `str.lower` on a letter. -/
def lowerLetter (c : Char) : List Char :=
  let n := c.toNat
  if 0x41 ≤ n ∧ n ≤ 0x5a then [Char.ofNat (n + 0x20)]
  else if 0x410 ≤ n ∧ n ≤ 0x42f then [Char.ofNat (n + 0x20)]
  else if n = 0x401 then ['ё']
  else if n = 0x130 then ['i', Char.ofNat 0x307]
  else if n = 0x212a then ['k']
  else [c]

def stopwords : List String :=
  ["a", "an", "and", "are", "as", "at", "be", "but", "by", "for", "from", "had", "has", "have",
    "he", "her", "his", "i", "in", "is", "it", "my", "of", "on", "or", "she", "that", "the", "to",
    "was", "were", "with", "you", "а", "в", "во", "и", "к", "как", "ко", "мне", "мой", "на", "не",
    "но", "о", "он", "она", "от", "по", "с", "со", "то", "у", "что", "я"]

/-- `_TOKEN_PATTERN.findall`: a match is bounded on both sides by `\b`, so it is a whole run
of word characters. -/
def findTokens [CharTable] (text : String) : List (List Char) :=
  (text.toList.splitOnP (!isWordChar ·)).filter fun word => word ≠ [] ∧ word.all isLetter

def tokenize [CharTable] (text : String) : List String :=
  ((findTokens text).map fun word => String.ofList (word.flatMap lowerLetter)).filter
    (· ∉ stopwords)

/-! ### Counters -/

/-- `Counter`, as the list of its items; nothing depends on their order. -/
abbrev Counter := List (String × ℕ)

def counter (tokens : List String) : Counter :=
  tokens.dedup.map fun word => (word, tokens.count word)

/-- `key=lambda item: (-item[1], item[0])`. -/
def Ranks (a b : String × ℕ) : Prop := b.2 < a.2 ∨ b.2 = a.2 ∧ a.1 ≤ b.1

instance : DecidableRel Ranks := fun _ _ => inferInstanceAs (Decidable (_ ∨ _ ∧ _))

def rankWords (words : Counter) : List String := (words.insertionSort Ranks).map Prod.fst

/-! ### The summary -/

def maxKeySymbols : ℕ := 10
def rawTextDreamLimit : ℕ := 5
def rawTextCharLimit : ℕ := 1000

/-- `ORDER BY created_at ASC, id ASC`. -/
def Dream.Precedes (a b : Dream) : Prop :=
  a.createdAt < b.createdAt ∨ a.createdAt = b.createdAt ∧ a.id ≤ b.id

instance : DecidableRel Dream.Precedes := fun _ _ => inferInstanceAs (Decidable (_ ∨ _))

/-- The dreams of a session, in the order of both queries. -/
def sessionDreams (dreams : List Dream) (sessionId : Uuid) : List Dream :=
  (dreams.filter fun dream => dream.sessionId = sessionId).insertionSort Dream.Precedes

/-- The computed columns of `build_session_summary`. -/
def summarize [CharTable] (dreams : List Dream) : SummaryContent :=
  let tokens := dreams.map fun dream => tokenize dream.text
  let wordCounts := counter tokens.flatten
  let perDreamTokens := counter (tokens.flatMap List.dedup)
  let rawTextSample := String.intercalate " " ((dreams.take rawTextDreamLimit).map Dream.text)
  { dreamCount := dreams.length
    keySymbols := (rankWords wordCounts).take maxKeySymbols
    recurringWords := rankWords ((perDreamTokens.filter fun item => 1 < item.2).map fun item =>
      (item.1, (wordCounts.lookup item.1).getD 0))
    rawTextSample := if rawTextSample = "" then none
      else some (String.ofList (rawTextSample.toList.take rawTextCharLimit)) }

/-- What a request for a session can raise. -/
inductive SessionError where
  | http (statusCode : ℕ) (detail : String)
  | runtime (message : String)
  deriving DecidableEq, Repr

def sessionNotFound : SessionError := .http 404 "Session not found"

/-- `build_session_summary`; `id` is its `uuid4`, `createdAt` the start of the transaction
that will insert the row. -/
def buildSessionSummary [CharTable] (sessions : List DreamSession) (dreams : List Dream)
    (sessionId id : Uuid) (createdAt : Time) : Except SessionError SessionSummary :=
  match get sessions sessionId with
  | none => .error sessionNotFound
  | some session => .ok
    { summarize (sessionDreams dreams sessionId) with
      id := id
      sessionId := session.id
      userId := session.userId
      createdAt := createdAt }

/-! ### The cache -/

def getSessionSummary (summaries : List SessionSummary) (sessionId : Uuid) :
    Option SessionSummary :=
  summaries.find? fun summary => summary.sessionId = sessionId

/-- `INSERT … ON CONFLICT (session_id) DO UPDATE`, which keeps the key and the creation
time of a row that exists. -/
def upsertSummary (summaries : List SessionSummary) (summary : SessionSummary) :
    List SessionSummary :=
  if (getSessionSummary summaries summary.sessionId).isSome then
    summaries.map fun row =>
      if row.sessionId = summary.sessionId then
        { row with
          userId := summary.userId
          toSummaryContent := summary.toSummaryContent }
      else row
  else summaries ++ [summary]

/-- `save_session_summary`. Returns the saved row and the table. -/
def saveSessionSummary (summaries : List SessionSummary) (summary : SessionSummary) :
    Except SessionError (SessionSummary × List SessionSummary) :=
  let saved := upsertSummary summaries summary
  match getSessionSummary saved summary.sessionId with
  | none => .error (.runtime "Failed to save session summary")
  | some row => .ok (row, saved)

/-- The summary of a session, built and saved if there is none yet: the body of
`get_session_summary_endpoint`, which `load_analysis_input` repeats. -/
def cachedSummary [CharTable] (sessions : List DreamSession) (dreams : List Dream)
    (summaries : List SessionSummary) (sessionId id : Uuid) (createdAt : Time) :
    Except SessionError (SessionSummary × List SessionSummary) :=
  match getSessionSummary summaries sessionId with
  | some summary => .ok (summary, summaries)
  | none => do
    let summary ← buildSessionSummary sessions dreams sessionId id createdAt
    saveSessionSummary summaries summary

/-! ### The input of an analysis -/

structure AnalysisInputContext where
  session : DreamSession
  sessionSummary : SessionSummary
  dreams : List Dream
  deriving DecidableEq, Repr

/-- `load_analysis_input`. Returns the context and the table of summaries. -/
def loadAnalysisInput [CharTable] (sessions : List DreamSession) (dreams : List Dream)
    (summaries : List SessionSummary) (sessionId id : Uuid) (createdAt : Time) :
    Except SessionError (AnalysisInputContext × List SessionSummary) :=
  match get sessions sessionId with
  | none => .error sessionNotFound
  | some session => do
    let (summary, summaries) ← cachedSummary sessions dreams summaries sessionId id createdAt
    .ok (⟨session, summary, sessionDreams dreams sessionId⟩, summaries)

/-- The summary is the one of the dreams next to it. -/
def AnalysisInputContext.Coherent [CharTable] (context : AnalysisInputContext) : Prop :=
  context.sessionSummary.toSummaryContent = summarize context.dreams

/-! ### What a load returns -/

section Load

variable [CharTable] {sessions : List DreamSession} {dreams : List Dream}
  {summaries : List SessionSummary} {sessionId id : Uuid} {createdAt : Time}

omit [CharTable] in
/-- The upsert of a summary that is not there yet adds it. -/
theorem saveSessionSummary_new {summary : SessionSummary}
    (h : getSessionSummary summaries summary.sessionId = none) :
    saveSessionSummary summaries summary = .ok (summary, summaries ++ [summary]) := by
  have hs : upsertSummary summaries summary = summaries ++ [summary] := by
    rw [upsertSummary, h]
    simp
  have hg : getSessionSummary (summaries ++ [summary]) summary.sessionId = some summary := by
    unfold getSessionSummary at h ⊢
    rw [List.find?_append, h]
    simp
  simp only [saveSessionSummary, hs, hg]

/-- A summary is taken from the cache, or it is the one of the dreams there are. -/
theorem cachedSummary_ok {summary : SessionSummary} {after : List SessionSummary}
    (h : cachedSummary sessions dreams summaries sessionId id createdAt = .ok (summary, after)) :
    getSessionSummary summaries sessionId = some summary ∧ after = summaries ∨
      getSessionSummary summaries sessionId = none ∧ after = summaries ++ [summary] ∧
        summary.sessionId = sessionId ∧
        (∃ session, get sessions sessionId = some session ∧ summary.userId = session.userId) ∧
        summary.toSummaryContent = summarize (sessionDreams dreams sessionId) := by
  unfold cachedSummary at h
  split at h
  · next row hrow =>
    cases h
    exact .inl ⟨hrow, rfl⟩
  · next hnone =>
    unfold buildSessionSummary at h
    cases hg : get sessions sessionId with
    | none => rw [hg] at h; cases h
    | some session =>
      have hk : session.id = sessionId := key_of_get hg
      simp only [hg, bind, Except.bind] at h
      rw [saveSessionSummary_new (by rwa [hk])] at h
      cases h
      exact .inr ⟨hnone, rfl, hk, ⟨session, rfl, rfl⟩, rfl⟩

theorem loadAnalysisInput_ok {context : AnalysisInputContext} {after : List SessionSummary}
    (h : loadAnalysisInput sessions dreams summaries sessionId id createdAt =
      .ok (context, after)) :
    get sessions sessionId = some context.session ∧
      context.dreams = sessionDreams dreams sessionId ∧
      cachedSummary sessions dreams summaries sessionId id createdAt =
        .ok (context.sessionSummary, after) := by
  unfold loadAnalysisInput at h
  split at h
  · cases h
  · next session hg =>
    cases hc : cachedSummary sessions dreams summaries sessionId id createdAt with
    | error e => rw [hc] at h; cases h
    | ok r => rw [hc] at h; cases h; exact ⟨hg, rfl, rfl⟩

end Load

end LiberNovus.Session

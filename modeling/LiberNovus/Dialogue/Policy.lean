import LiberNovus.Foundation.Text
import LiberNovus.Session.Summary

/-! The dialogue policy: the router that turns a message into the input of the policy, the
detector of crisis signals, the engine that decides on a route, and the trace of a
decision. -/

namespace LiberNovus.Dialogue

open Session Text

inductive InputType where
  | text | shortFragment | longText | continuationSignal
  deriving DecidableEq, Repr

inductive SessionState where
  | new | active | idle | closed | resumed
  deriving DecidableEq, Repr

inductive PolicyRoute where
  | newDream | dialogueTurn | clarification | safety | noop
  deriving DecidableEq, Repr

inductive SessionAction where
  | none | startNew | continue
  deriving DecidableEq, Repr

structure PolicyInput where
  text : String
  textLength : ℕ
  tokenCount : ℕ
  inputType : InputType
  sessionState : SessionState
  isEmpty : Bool
  crisisSignal : Bool
  deriving DecidableEq, Repr

/-- `PolicyDecision`; its confidence is always 1. -/
structure PolicyDecision where
  route : PolicyRoute
  sessionAction : SessionAction
  reasonCode : String
  deriving DecidableEq, Repr

structure PolicyEvaluation where
  policyInput : PolicyInput
  decision : PolicyDecision
  deriving DecidableEq, Repr

/-! ### Crisis signals -/

/-- `str.lower`, and which characters `re.IGNORECASE` takes for one another. -/
class CaseTable where
  lower : List Char → List Char
  sameLetter : Char → Char → Bool

/-- A part of a crisis pattern: a literal, `\s+`, or `[-\s]?`. -/
inductive Piece where
  | literal (letters : String)
  | spaces
  | gap
  deriving DecidableEq, Repr

/-- A pattern that starts at a word boundary, and ends at one when it is `bounded`. -/
structure CrisisPattern where
  pieces : List Piece
  bounded : Bool
  deriving DecidableEq, Repr

def crisisPatterns : List CrisisPattern :=
  [⟨[.literal "хочу", .spaces, .literal "умереть"], true⟩,
    ⟨[.literal "покончить", .spaces, .literal "с", .spaces, .literal "собой"], true⟩,
    ⟨[.literal "самоубийств"], false⟩,
    ⟨[.literal "не", .spaces, .literal "хочу", .spaces, .literal "жить"], true⟩,
    ⟨[.literal "порежу", .spaces, .literal "себя"], true⟩,
    ⟨[.literal "суицид"], false⟩,
    ⟨[.literal "self", .gap, .literal "harm"], true⟩,
    ⟨[.literal "kill", .spaces, .literal "myself"], true⟩]

section Detector

variable [CharTable] [CaseTable]

/-- What may be left of the text after the piece. -/
def Piece.rests : Piece → List Char → List (List Char)
  | .literal letters, text =>
    let prefixed := text.take letters.length
    if prefixed.length = letters.length ∧
        (letters.toList.zip prefixed).all (fun p => CaseTable.sameLetter p.1 p.2) then
      [text.drop letters.length]
    else []
  | .spaces, text =>
    (List.range (text.takeWhile isSpace).length).map fun n => text.drop (n + 1)
  | .gap, text => match text with
    | c :: rest => if c = '-' ∨ isSpace c then [rest, text] else [text]
    | [] => [[]]

omit [CaseTable] in
/-- `\b`, between the characters before and after it. -/
def boundary (before after : Option Char) : Bool :=
  (before.any isWordChar) != (after.any isWordChar)

/-- The pattern matches at the start of `text`, which follows the character `before`. -/
def CrisisPattern.matchesAt (pattern : CrisisPattern) (before : Option Char) (text : List Char) :
    Bool :=
  let rests := pattern.pieces.foldl (fun rests piece => rests.flatMap piece.rests) [text]
  boundary before text.head? && rests.any fun rest =>
    let matched := text.take (text.length - rest.length)
    !pattern.bounded || boundary (matched.getLast?.or before) rest.head?

def CrisisPattern.search (pattern : CrisisPattern) (before : Option Char) : List Char → Bool
  | [] => pattern.matchesAt before []
  | c :: text => pattern.matchesAt before (c :: text) || pattern.search (some c) text

omit [CharTable] in
/-- `" ".join(text.strip().lower().split())`. -/
def normalized (text : String) : List Char := squeeze (CaseTable.lower (strip text.toList))

def isCrisisSignal (text : String) : Bool :=
  normalized text ≠ [] ∧ crisisPatterns.any fun pattern => pattern.search none (normalized text)

end Detector

/-! ### The router -/

def continuationPrefixes : List String :=
  ["в продолжение", "добавлю", "дополню", "дополнил", "продолжу", "продолжение", "ещё", "еще",
    "и ещё", "и еще"]

def classifyInputType [CaseTable] (text : String) : InputType :=
  let normalized := normalized text
  let tokenCount := (words normalized).length
  if continuationPrefixes.any fun start => start.toList.isPrefixOf normalized then
    .continuationSignal
  else if tokenCount ≤ 3 then .shortFragment
  else if 6 ≤ tokenCount ∨ 40 ≤ normalized.length then .longText
  else .text

def buildPolicyInput [CharTable] [CaseTable] (text : String) (sessionState : SessionState) :
    PolicyInput :=
  let normalized := squeeze text.toList
  { text := text
    textLength := normalized.length
    tokenCount := (words normalized).length
    inputType := classifyInputType text
    sessionState := sessionState
    isEmpty := normalized.isEmpty
    crisisSignal := isCrisisSignal text }

/-! ### The engine -/

def minTokensForDream : ℕ := 8

def DialoguePolicyEngine.decide (policyInput : PolicyInput) : PolicyDecision :=
  if policyInput.crisisSignal then ⟨.safety, .none, "crisis_signal_detected"⟩
  else if policyInput.isEmpty ∨ policyInput.textLength ≤ 0 then ⟨.noop, .none, "empty_input"⟩
  else if policyInput.sessionState ∈ [SessionState.new, .idle, .closed] ∧
      policyInput.inputType = .shortFragment ∧ policyInput.tokenCount < minTokensForDream then
    ⟨.clarification, .none, "short_fragment_without_context"⟩
  else if policyInput.inputType = .continuationSignal then
    ⟨.dialogueTurn, .continue, "continuation_signal"⟩
  else if policyInput.sessionState ∈ [SessionState.new, .closed] ∧
      policyInput.inputType = .longText ∧ minTokensForDream ≤ policyInput.tokenCount then
    ⟨.newDream, .startNew, "long_text_new_or_closed_session"⟩
  else if policyInput.sessionState ∈ [SessionState.active, .resumed] ∧
      minTokensForDream ≤ policyInput.tokenCount ∧ policyInput.inputType = .longText then
    ⟨.newDream, .continue, "active_session_new_dream_fragment"⟩
  else if policyInput.sessionState ∈ [SessionState.active, .resumed] then
    if policyInput.tokenCount < minTokensForDream then
      ⟨.dialogueTurn, .continue, "active_session_short_follow_up"⟩
    else ⟨.dialogueTurn, .continue, "active_session_dialogue_turn"⟩
  else if policyInput.tokenCount < minTokensForDream then
    ⟨.clarification, .none, "insufficient_tokens"⟩
  else ⟨.newDream, .startNew, "default_new_dream_route"⟩

/-! ### The trace -/

/-- `policy_input_projection`: the input without the text. -/
structure PolicyInputProjection where
  textLength : ℕ
  tokenCount : ℕ
  inputType : InputType
  sessionState : SessionState
  isEmpty : Bool
  crisisSignal : Bool
  deriving DecidableEq, Repr

def policyInputProjection (policyInput : PolicyInput) : PolicyInputProjection where
  textLength := policyInput.textLength
  tokenCount := policyInput.tokenCount
  inputType := policyInput.inputType
  sessionState := policyInput.sessionState
  isEmpty := policyInput.isEmpty
  crisisSignal := policyInput.crisisSignal

/-- The `outcome` of a traced message. -/
inductive TraceOutcome where
  | noop | safety | clarification
  | newDreamEnqueued (dreamId : ℕ) (jobId : Uuid)
  | dialogueTurn
  deriving DecidableEq, Repr

/-- A row of `dialogue_policy_traces`. Its `decision_json` is the decision. -/
structure DialoguePolicyTrace where
  id : Uuid
  userId : ℤ
  sessionId : Option Uuid
  dreamId : Option ℕ
  jobId : Option Uuid
  inputJson : PolicyInputProjection
  decisionJson : PolicyDecision
  route : PolicyRoute
  reasonCode : String
  outcomeJson : TraceOutcome
  createdAt : Time
  deriving DecidableEq, Repr

end LiberNovus.Dialogue

import LiberNovus.Dialogue.LetterCase

/-! The routes of the dialogue policy as one table, over the number of words of the message,
its beginning, and the state of the session.

Proved: the classifier and the rules of the engine together are the table, for every
message. -/

namespace LiberNovus.Dialogue

open Session Text

/-! ### The table -/

/-- The message has a crisis signal, is empty, continues, is a dream, or is none of these. -/
def routingTable [CharTable] [CaseTable] (text : String) (state : SessionState) :
    PolicyRoute × SessionAction :=
  let tokens := (words text.toList).length
  if isCrisisSignal text then (.safety, .none)
  else if tokens = 0 then (.noop, .none)
  else if ∃ start ∈ continuationPrefixes, start.toList <+: normalized text then
    (.dialogueTurn, .continue)
  else if 8 ≤ tokens then
    (.newDream, if state ∈ [.active, .resumed] then .continue else .startNew)
  else if state ∈ [.active, .resumed] then (.dialogueTurn, .continue)
  else (.clarification, .none)

section Tokens

variable [CaseTable] [LawfulCaseTable]

/-- The classifier counts the words that the router counts. -/
theorem length_words_normalized (text : String) :
    (words (normalized text)).length = (words text.toList).length := by
  rw [normalized, words_squeeze, length_words_lower, words_strip]

omit [LawfulCaseTable] in
theorem isContinuation_iff (text : String) :
    (continuationPrefixes.any fun start => start.toList.isPrefixOf (normalized text)) = true ↔
      ∃ start ∈ continuationPrefixes, start.toList <+: normalized text := by
  simp only [List.any_eq_true, List.isPrefixOf_iff_prefix]

/-- What the classifier says of a message, in the words of the table. -/
theorem classifyInputType_eq (text : String) : classifyInputType text =
    if ∃ start ∈ continuationPrefixes, start.toList <+: normalized text then .continuationSignal
    else if (words text.toList).length ≤ 3 then .shortFragment
    else if 6 ≤ (words text.toList).length ∨ 40 ≤ (normalized text).length then .longText
    else .text := by
  simp only [classifyInputType, isContinuation_iff, length_words_normalized]

end Tokens

/-! ### The engine -/

section Engine

variable [CharTable] [CaseTable] [LawfulCaseTable]

/-- The decision on a message is the one of the table. -/
theorem decide_eq_routingTable (text : String) (state : SessionState) :
    let decision := DialoguePolicyEngine.decide (buildPolicyInput text state)
    (decision.route, decision.sessionAction) = routingTable text state := by
  intro decision
  have hempty : ((squeeze text.toList).isEmpty = true ∨ (squeeze text.toList).length ≤ 0) ↔
      (words text.toList).length = 0 := by
    rw [List.isEmpty_iff, Nat.le_zero, List.length_eq_zero_iff, or_self, squeeze_eq_nil,
      List.length_eq_zero_iff]
  simp only [decision, buildPolicyInput, DialoguePolicyEngine.decide, words_squeeze, hempty,
    classifyInputType_eq, routingTable, minTokensForDream]
  by_cases hcrisis : isCrisisSignal text = true
  · simp [hcrisis]
  by_cases hnone : (words text.toList).length = 0
  · simp [hcrisis, hnone]
  by_cases hcontinues : ∃ start ∈ continuationPrefixes, start.toList <+: normalized text
  · simp [hcrisis, hnone, hcontinues]
  simp only [hcrisis, hnone, hcontinues, Bool.false_eq_true, if_false]
  -- The engine asks for a long text where the table asks for eight words.
  by_cases hdream : 8 ≤ (words text.toList).length
  · have hshort : ¬ (words text.toList).length ≤ 3 := by omega
    have hlong : 6 ≤ (words text.toList).length := by omega
    have hfew : ¬ (words text.toList).length < 8 := by omega
    cases state <;> simp [hdream, hshort, hlong, hfew]
  · have hfew : (words text.toList).length < 8 := by omega
    by_cases hshort : (words text.toList).length ≤ 3
    · cases state <;> simp [hdream, hshort, hfew]
    · by_cases hlong : 6 ≤ (words text.toList).length ∨ 40 ≤ (normalized text).length <;>
        cases state <;> simp [hdream, hshort, hfew, hlong]

end Engine

section Example

local instance table : CharTable := ⟨Char.isAlphanum⟩

local instance : CaseTable := letterCase

/-- Eight words in an active session are a dream. -/
theorem routed_active :
    let decision := DialoguePolicyEngine.decide
      (buildPolicyInput "Мне снилось, как я Иду по мосту ночью" .active)
    (decision.route, decision.sessionAction) = (.newDream, .continue) :=
  haveI := lawful_letterCase
  (decide_eq_routingTable "Мне снилось, как я Иду по мосту ночью" .active).trans (by decide)

end Example

end LiberNovus.Dialogue

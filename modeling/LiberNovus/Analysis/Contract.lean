import LiberNovus.Dialogue.Turn
import LiberNovus.Foundation.Joins
import LiberNovus.Foundation.Json.Models

/-! `DreamAnalysisV1`, the contract of an analysis, and the legacy fields in which the endpoints
show a stored one.

Proved: whatever reply was accepted, the analysis that is stored of it is accepted again, is the
same, and can be shown, with the themes named once each. -/

namespace LiberNovus.Analysis.Contract

open Json Responses Results
open Dialogue (zeroFloat oneFloat)

/-! ### The models -/

structure DreamSymbolV1 where
  symbol : Str
  meaning : Str
  emotionalCharge : Str
  deriving DecidableEq

structure EmotionalStateV1 where
  primary : Str
  secondary : Str
  intensity : Float.Model
  deriving DecidableEq

structure JungianInterpretationV1 where
  archetypes : List Str
  shadowElements : List Str
  animaAnimusSignals : List Str
  individuationHint : Str
  deriving DecidableEq

structure DreamAnalysisV1 where
  summary : Str
  symbols : List DreamSymbolV1
  emotionalState : EmotionalStateV1
  jungianInterpretation : JungianInterpretationV1
  narrativeInterpretation : Str
  keyInsight : Str
  uncertaintyNotes : List Str
  deriving DecidableEq

structure LegacyAnalysisPayload where
  interpretation : Str
  themes : List Str
  questionsForUser : List Str
  deriving DecidableEq

def DreamAnalysisV1.HasInterpretation (analysis : DreamAnalysisV1) : Prop :=
  strip analysis.narrativeInterpretation ≠ [] ∨ strip analysis.keyInsight ≠ []

instance (analysis : DreamAnalysisV1) : Decidable analysis.HasInterpretation :=
  inferInstanceAs (Decidable (_ ∨ _))

/-- `_symbols_required_when_interpretation_exists`. -/
def symbolsRequired (analysis : DreamAnalysisV1) : Except FieldError Unit :=
  if analysis.HasInterpretation ∧ analysis.symbols = [] then
    .error (.valueError "symbols must be non-empty when interpretation content is present")
  else .ok ()

section Models

variable [Pydantic Float.Model]

def dreamSymbolV1 : Codec Float.Model DreamSymbolV1 :=
  Fields.model
    ((Fields.required (text "symbol") .str).pair
      ((Fields.required (text "meaning") .str).pair
        (Fields.required (text "emotional_charge") .str)))
    (fun p => ⟨p.1, p.2.1, p.2.2⟩) (fun s => (s.symbol, s.meaning, s.emotionalCharge))
    (fun _ => rfl) (by dsimp only [Fields.pair, Fields.required, Fields.field]; decide)

def jungianInterpretationV1 : Codec Float.Model JungianInterpretationV1 :=
  Fields.model
    ((Fields.required (text "archetypes") Codec.str.list).pair
      ((Fields.required (text "shadow_elements") Codec.str.list).pair
        ((Fields.required (text "anima_animus_signals") Codec.str.list).pair
          (Fields.required (text "individuation_hint") .str))))
    (fun p => ⟨p.1, p.2.1, p.2.2.1, p.2.2.2⟩)
    (fun j => (j.archetypes, j.shadowElements, j.animaAnimusSignals, j.individuationHint))
    (fun _ => rfl) (by dsimp only [Fields.pair, Fields.required, Fields.field]; decide)

def legacyAnalysisPayload : Codec Float.Model LegacyAnalysisPayload :=
  Fields.model
    ((Fields.required (text "interpretation") .str).pair
      ((Fields.required (text "themes") Codec.str.list).pair
        (Fields.required (text "questions_for_user") Codec.str.list)))
    (fun p => ⟨p.1, p.2.1, p.2.2⟩) (fun l => (l.interpretation, l.themes, l.questionsForUser))
    (fun _ => rfl) (by dsimp only [Fields.pair, Fields.required, Fields.field]; decide)

variable [LawfulPydantic Float.Model]

def emotionalStateV1 : Codec Float.Model EmotionalStateV1 :=
  Fields.model
    ((Fields.required (text "primary") .str).pair
      ((Fields.required (text "secondary") .str).pair
        (Fields.required (text "intensity") (.between zeroFloat oneFloat))))
    (fun p => ⟨p.1, p.2.1, p.2.2⟩) (fun e => (e.primary, e.secondary, e.intensity))
    (fun _ => rfl) (by dsimp only [Fields.pair, Fields.required, Fields.field]; decide)

/-- `DreamAnalysisV1.model_validate` and `model_dump`. -/
def dreamAnalysisV1 : Codec Float.Model DreamAnalysisV1 :=
  Codec.check
    (Fields.model
      ((Fields.required (text "summary") .str).pair
        ((Fields.required (text "symbols") dreamSymbolV1.list).pair
          ((Fields.required (text "emotional_state") emotionalStateV1).pair
            ((Fields.required (text "jungian_interpretation") jungianInterpretationV1).pair
              ((Fields.required (text "narrative_interpretation") .str).pair
                ((Fields.required (text "key_insight") .str).pair
                  (Fields.required (text "uncertainty_notes") Codec.str.list)))))))
      (fun p => ⟨p.1, p.2.1, p.2.2.1, p.2.2.2.1, p.2.2.2.2.1, p.2.2.2.2.2.1, p.2.2.2.2.2.2⟩)
      (fun a => (a.summary, a.symbols, a.emotionalState, a.jungianInterpretation,
        a.narrativeInterpretation, a.keyInsight, a.uncertaintyNotes))
      (fun _ => rfl) (by dsimp only [Fields.pair, Fields.required, Fields.field]; decide))
    symbolsRequired

end Models

/-! ### The legacy presentation -/

def legacyMapperV1 (analysis : DreamAnalysisV1) : LegacyAnalysisPayload :=
  let narrative := strip analysis.narrativeInterpretation
  let summary := if narrative = [] then strip analysis.summary else narrative
  let insight := strip analysis.keyInsight
  { interpretation := if summary = [] then insight else summary
    themes := Joins.fromkeys (analysis.symbols.map DreamSymbolV1.symbol ++
      analysis.jungianInterpretation.archetypes)
    questionsForUser :=
      if analysis.uncertaintyNotes = [] ∧ insight ≠ [] then [insight] else analysis.uncertaintyNotes }

def toLegacyPresentation [Pydantic Float.Model] [LawfulPydantic Float.Model]
    (analysisJson : Value Float.Model) : Except Errors LegacyAnalysisPayload := do
  let canonical ← dreamAnalysisV1.read analysisJson
  legacyAnalysisPayload.read (legacyAnalysisPayload.dump (legacyMapperV1 canonical))

/-! ### What is shown -/

section Shown

variable [Pydantic Float.Model]

/-- The texts that the presentation is made of. -/
structure DreamAnalysisV1.Texts (analysis : DreamAnalysisV1) : Prop where
  summary : Taken Float.Model analysis.summary
  symbols : ∀ s ∈ analysis.symbols, Taken Float.Model s.symbol
  archetypes : ∀ s ∈ analysis.jungianInterpretation.archetypes, Taken Float.Model s
  narrative : Taken Float.Model analysis.narrativeInterpretation
  insight : Taken Float.Model analysis.keyInsight
  notes : ∀ s ∈ analysis.uncertaintyNotes, Taken Float.Model s

theorem taken_of_required {name : Str} {members : List (Str × Value Float.Model)} {s : Str}
    (h : (Fields.required name Codec.str).read members = .ok s) : Taken Float.Model s := by
  obtain ⟨v, -, hv⟩ := Fields.required_read_eq_ok.mp h
  exact Codec.valid_str.mp (Codec.valid_of_read hv)

theorem taken_of_requiredList {name : Str} {members : List (Str × Value Float.Model)} {l : List Str}
    (h : (Fields.required name Codec.str.list).read members = .ok l) :
    ∀ s ∈ l, Taken Float.Model s := by
  obtain ⟨v, -, hv⟩ := Fields.required_read_eq_ok.mp h
  exact fun s hs => Codec.valid_str.mp (Codec.valid_list.mp (Codec.valid_of_read hv) s hs)

theorem taken_symbol {s : DreamSymbolV1} (h : dreamSymbolV1.Valid s) : Taken Float.Model s.symbol := by
  obtain ⟨members, p, -, hp, rfl⟩ := Fields.exists_of_model_read h
  exact taken_of_required (both_eq_ok.mp hp).1

theorem taken_archetypes {v : Value Float.Model} {j : JungianInterpretationV1}
    (h : jungianInterpretationV1.read v = .ok j) : ∀ s ∈ j.archetypes, Taken Float.Model s := by
  obtain ⟨members, p, -, hp, rfl⟩ := Fields.exists_of_model_read h
  exact taken_of_requiredList (both_eq_ok.mp hp).1

theorem valid_legacy {legacy : LegacyAnalysisPayload} (hi : Taken Float.Model legacy.interpretation)
    (ht : ∀ s ∈ legacy.themes, Taken Float.Model s)
    (hq : ∀ s ∈ legacy.questionsForUser, Taken Float.Model s) : legacyAnalysisPayload.Valid legacy := by
  have htexts : ∀ l : List Str, (∀ s ∈ l, Taken Float.Model s) → Codec.str.list.Valid l :=
    fun l hl => Codec.valid_list.mpr fun s hs => Codec.valid_str.mpr (hl s hs)
  exact Fields.valid_model (a := (legacy.interpretation, legacy.themes, legacy.questionsForUser))
    (Fields.valid_pair (Fields.valid_required (Codec.valid_str.mpr hi))
      (Fields.valid_pair (Fields.valid_required (htexts _ ht)) (Fields.valid_required (htexts _ hq))))

/-- The legacy fields of an analysis. -/
structure Shows (analysis : DreamAnalysisV1) (legacy : LegacyAnalysisPayload) : Prop where
  interpretation : legacy.interpretation = [] ↔ strip analysis.narrativeInterpretation = [] ∧
    strip analysis.summary = [] ∧ strip analysis.keyInsight = []
  stripped : strip legacy.interpretation = legacy.interpretation
  once : legacy.themes.Nodup
  themes : ∀ theme, theme ∈ legacy.themes ↔ (∃ s ∈ analysis.symbols, s.symbol = theme) ∨
    theme ∈ analysis.jungianInterpretation.archetypes
  questions : legacy.questionsForUser = [] ↔
    analysis.uncertaintyNotes = [] ∧ strip analysis.keyInsight = []
  interpreted : analysis.HasInterpretation → legacy.interpretation ≠ [] ∧ legacy.themes ≠ []

omit [Pydantic Float.Model] in
theorem shows_legacyMapperV1 {analysis : DreamAnalysisV1}
    (h : analysis.HasInterpretation → analysis.symbols ≠ []) :
    Shows analysis (legacyMapperV1 analysis) := by
  have hinterpretation : (legacyMapperV1 analysis).interpretation = [] ↔
      strip analysis.narrativeInterpretation = [] ∧ strip analysis.summary = [] ∧
        strip analysis.keyInsight = [] := by
    unfold legacyMapperV1
    by_cases hn : strip analysis.narrativeInterpretation = [] <;>
      by_cases hs : strip analysis.summary = [] <;> simp [hn, hs]
  have hthemes : ∀ theme, theme ∈ (legacyMapperV1 analysis).themes ↔
      (∃ s ∈ analysis.symbols, s.symbol = theme) ∨
        theme ∈ analysis.jungianInterpretation.archetypes := fun theme => by
    rw [legacyMapperV1, Joins.mem_fromkeys, List.mem_append, List.mem_map]
  refine ⟨hinterpretation, ?_, Joins.nodup_fromkeys _, hthemes, ?_, fun hi => ⟨fun hnil => ?_, ?_⟩⟩
  · unfold legacyMapperV1
    dsimp only
    split
    · split <;> exact Dialogue.strip_strip _
    · exact Dialogue.strip_strip _
  · unfold legacyMapperV1
    dsimp only
    split
    · next hq => simp [hq]
    · next hq => tauto
  · obtain ⟨hn, -, hk⟩ := hinterpretation.mp hnil
    exact hi.elim (· hn) (· hk)
  · obtain ⟨s, hs⟩ := List.exists_mem_of_ne_nil _ (h hi)
    exact List.ne_nil_of_mem ((hthemes s.symbol).mpr (.inl ⟨s, hs, rfl⟩))

theorem taken_legacyMapperV1 {analysis : DreamAnalysisV1} (h : analysis.Texts) :
    legacyAnalysisPayload.Valid (legacyMapperV1 analysis) := by
  refine valid_legacy ?_ (fun s hs => ?_) fun s hs => ?_
  · unfold legacyMapperV1
    dsimp only
    split
    · split
      · exact Dialogue.taken_strip h.insight
      · exact Dialogue.taken_strip h.summary
    · exact Dialogue.taken_strip h.narrative
  · rw [legacyMapperV1, Joins.mem_fromkeys, List.mem_append, List.mem_map] at hs
    rcases hs with ⟨symbol, hs, rfl⟩ | hs
    · exact h.symbols symbol hs
    · exact h.archetypes s hs
  · unfold legacyMapperV1 at hs
    dsimp only at hs
    split at hs
    · rw [List.mem_singleton.mp hs]
      exact Dialogue.taken_strip h.insight
    · exact h.notes s hs

variable [LawfulPydantic Float.Model]

/-- What the model has looked at. -/
theorem texts_of_read {v : Value Float.Model} {analysis : DreamAnalysisV1}
    (h : dreamAnalysisV1.read v = .ok analysis) :
    analysis.Texts ∧ (analysis.HasInterpretation → analysis.symbols ≠ []) := by
  obtain ⟨checked, hread, h⟩ := bind_eq_ok.mp h
  obtain ⟨_, hsymbols, h⟩ := bind_eq_ok.mp h
  cases h
  obtain ⟨members, p, -, hp, rfl⟩ := Fields.exists_of_model_read hread
  obtain ⟨hsummary, hp⟩ := both_eq_ok.mp hp
  obtain ⟨hlist, hp⟩ := both_eq_ok.mp hp
  obtain ⟨-, hp⟩ := both_eq_ok.mp hp
  obtain ⟨hjungian, hp⟩ := both_eq_ok.mp hp
  obtain ⟨hnarrative, hp⟩ := both_eq_ok.mp hp
  obtain ⟨hinsight, hnotes⟩ := both_eq_ok.mp hp
  obtain ⟨w, -, hw⟩ := Fields.required_read_eq_ok.mp hlist
  obtain ⟨w', -, hw'⟩ := Fields.required_read_eq_ok.mp hjungian
  refine ⟨⟨taken_of_required hsummary, fun s hs => ?_, taken_archetypes hw',
    taken_of_required hnarrative, taken_of_required hinsight, taken_of_requiredList hnotes⟩,
    fun hi hnone => ?_⟩
  · exact taken_symbol (Codec.valid_list.mp (Codec.valid_of_read hw) s hs)
  · rw [here_eq_ok, symbolsRequired, if_pos ⟨hi, hnone⟩] at hsymbols
    cases hsymbols

/-- An accepted analysis is dumped to a value that is accepted and shown. -/
theorem shows_dump {v : Value Float.Model} {analysis : DreamAnalysisV1}
    (h : dreamAnalysisV1.read v = .ok analysis) :
    toLegacyPresentation (dreamAnalysisV1.dump analysis) = .ok (legacyMapperV1 analysis) ∧
      Shows analysis (legacyMapperV1 analysis) := by
  obtain ⟨htexts, hsymbols⟩ := texts_of_read h
  refine ⟨bind_eq_ok.mpr ⟨analysis, dreamAnalysisV1.read_dump v analysis h, ?_⟩,
    shows_legacyMapperV1 hsymbols⟩
  exact taken_legacyMapperV1 htexts

end Shown

end LiberNovus.Analysis.Contract

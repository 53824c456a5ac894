import LiberNovus.Analysis.Contract
import LiberNovus.Integrity.Runs
import LiberNovus.Runtime.Writes

/-! The analyses that a run stores, and the endpoints that show them. What is stored was accepted
by the validator of the run that stored it; a request that reads it validates it once more.

Proved: in every run whose validators are the contract, every stored analysis can be shown, with
an interpretation and themes whenever it interprets anything. -/

namespace LiberNovus.Analysis.Presentation

open Runs Session Json Contract LiberNovus.Runtime
open ThreadHistory (alone)

/-! ### What is stored -/

/-- The contents of all analyses are such. -/
def Stored (V : String → Prop) (db : Database) : Prop := ∀ row ∈ db.analyses, V row.analysisJson

/-- The analyses that are added are such, if those before are. -/
def Adds (V : String → Prop) (db after : Database) : Prop := Stored V db → Stored V after

variable {V : String → Prop}

instance : Std.Refl (Adds V) := ⟨fun _ h => h⟩

instance : IsTrans Database (Adds V) := ⟨fun _ _ _ h h' hs => h' (h hs)⟩

theorem adds_of_same {db after : Database} (h : after.analyses = db.analyses) : Adds V db after :=
  fun hs => by rwa [Stored, h]

/-- Rows that keep their content. -/
theorem adds_rewrite {db : Database} {f : SessionAnalysis → SessionAnalysis}
    (hf : ∀ row, (f row).analysisJson = row.analysisJson) :
    Adds V db { db with analyses := db.analyses.map f } := by
  intro hs row hrow
  obtain ⟨old, hold, rfl⟩ := List.mem_map.mp hrow
  rw [hf]
  exact hs old hold

theorem adds_insert {db : Database} {analysis : SessionAnalysis} (h : V analysis.analysisJson) :
    Adds V db { db with analyses := db.analyses ++ [analysis] } := by
  intro hs row hrow
  rcases List.mem_append.mp hrow with hrow | hrow
  · exact hs row hrow
  · rwa [List.mem_singleton.mp hrow]

theorem permits_adds : Writes.Permits V (Adds V) where
  others _ _ _ _ := adds_of_same rfl
  flags db f hf := adds_rewrite fun row => by
    rcases hf row with h | h <;> rw [h]
    rfl
  stored _ _ h := adds_insert h
  finished _ _ _ := adds_of_same rfl

/-! ### Runs -/

section Runs

variable [CharTable] [Pydantic Float.Model] [LawfulPydantic Float.Model]
  -- how a stored text is read
  (read : String → Option (Value Float.Model))

/-- The validator of the environment is the contract, and its result is stored as it is dumped. -/
def Contracted (env : Environment) : Prop :=
  ∀ payload json, env.validateAnalysisOutput payload = .ok json →
    ∃ v analysis, dreamAnalysisV1.read v = .ok analysis ∧
      read json = some (dreamAnalysisV1.dump analysis)

/-- The validators of an operation are the contract. -/
def ContractedEvent : Integrity.Event → Prop
  | .operation (.execute env ..) => Contracted read env
  | .operation (.analyse env ..) => Contracted read env
  | _ => True

/-- What the endpoints make of a stored analysis. -/
def Presentable (json : String) : Prop :=
  ∃ v analysis legacy, read json = some v ∧ dreamAnalysisV1.read v = .ok analysis ∧
    toLegacyPresentation v = .ok legacy ∧ Shows analysis legacy

variable {read} {settings : Settings} {db after : Database}

omit [CharTable] in
theorem presentable_of_contracted {env : Environment} (h : Contracted read env) (payload json : String)
    (hjson : env.validateAnalysisOutput payload = .ok json) : Presentable read json := by
  obtain ⟨v, analysis, hread, hstored⟩ := h payload json hjson
  obtain ⟨hlegacy, hshows⟩ := shows_dump hread
  exact ⟨_, analysis, _, hstored, dreamAnalysisV1.read_dump v analysis hread, hlegacy, hshows⟩

omit [CharTable] in
theorem validates_alone {env : Environment} (h : Contracted read env) : ∀ payload json,
    (alone env).validateAnalysisOutput payload = .ok json → Presentable read json :=
  presentable_of_contracted h

omit [CharTable] [Pydantic Float.Model] [LawfulPydantic Float.Model] in
theorem committing_alone (env : Environment) (await : Await) (db : Database) :
    (alone env).committing await db = db := rfl

omit [CharTable] [Pydantic Float.Model] [LawfulPydantic Float.Model] in
theorem adds_cleanup (execute : Bool) : Adds V db (Scripts.cleanupLegacySessions execute db).2 := by
  unfold Scripts.cleanupLegacySessions
  dsimp only
  split
  · exact Std.Refl.refl db
  · split
    · next after hscript =>
      obtain rfl := ForeignKeys.Schema.final_of_script hscript
      rw [Scripts.final_statements]
      exact fun hs row hrow => hs row (List.mem_filter.mp hrow).1
    · exact Std.Refl.refl db

theorem adds_step {e : Integrity.Event} (he : ContractedEvent read e)
    (ht : Integrity.step settings db e = some after) : Adds (Presentable read) db after := by
  cases e with
  | operation e =>
    cases e with
    | message telegramId text evaluation draws dialogue =>
      simp only [Integrity.step, Journal.step, Option.ite_none_right_eq_some] at ht
      obtain ⟨-, ht⟩ := ht
      split at ht <;> cases ht
      · next hok => exact adds_of_same (Integrity.intake_of_message hok).analyses
      · exact Std.Refl.refl db
    | acquire limit lockedBy now stale configured =>
      cases ht
      exact adds_of_same rfl
    | execute env deliver job =>
      simp only [Integrity.step, Journal.step, Option.ite_none_right_eq_some, Option.some.injEq] at ht
      obtain ⟨-, rfl⟩ := ht
      exact Writes.rel_execute permits_adds (committing_alone env) (validates_alone he) db
    | buildSummary sessionId id createdAt =>
      simp only [Integrity.step, Journal.step] at ht
      split at ht <;> cases ht <;> exact adds_of_same rfl
    | analyse env sessionId mode =>
      cases ht
      exact Writes.rel_analyse permits_adds (committing_alone env) (validates_alone he) mode db
  | analyzeAsync sessionId id mode now =>
    simp only [Integrity.step] at ht
    split at ht <;> cases ht
    · next hok =>
      obtain ⟨-, hafter⟩ := Integrity.analyzeAsync_cases hok
      exact adds_of_same (by rw [hafter])
    · exact Std.Refl.refl db
  | cleanup execute =>
    cases ht
    exact adds_cleanup execute

/-- In every run whose validators are the contract, every stored analysis can be shown. -/
theorem presentable_always (hdb : Stored (Presentable read) db) {es : List Integrity.Event}
    (hes : ∀ e ∈ es, ContractedEvent read e) :
    Always (Integrity.step settings) (Stored (Presentable read)) db es :=
  always_of_guarded (fun _ _ _ hs he ht => adds_step he ht hs) hdb (guarded_of_forall hes db)

end Runs

/-! ### Example -/

section Example

local instance table : CharTable := ⟨Char.isAlphanum⟩

local instance conversions : Pydantic Float.Model where
  takesChar := fun _ => true
  toFloat v := match v with
    | .float x => some x
    | .int n => some (.ofInt n)
    | .bool b => some (.ofInt b.toNat)
    | _ => none

local instance lawfulConversions : LawfulPydantic Float.Model := ⟨fun _ => rfl⟩

def house : DreamAnalysisV1 where
  summary := text "A house"
  symbols := []
  emotionalState := ⟨text "calm", [], Dialogue.halfFloat⟩
  jungianInterpretation := ⟨[], [], [], []⟩
  narrativeInterpretation := []
  keyInsight := []
  uncertaintyNotes := []

def houseText : String :=
  "\x7b\"summary\": \"A house\", \"symbols\": [], \"emotional_state\": " ++
    "\x7b\"primary\": \"calm\", \"secondary\": \"\", \"intensity\": 0.5\x7d, " ++
    "\"jungian_interpretation\": \x7b\"archetypes\": [], \"shadow_elements\": [], " ++
    "\"anima_animus_signals\": [], \"individuation_hint\": \"\"\x7d, " ++
    "\"narrative_interpretation\": \"\", \"key_insight\": \"\", \"uncertainty_notes\": " ++
    "[]\x7d"

def readText (json : String) : Option (Value Float.Model) :=
  if json = houseText then some (dreamAnalysisV1.dump house) else none

def request : Environment :=
  { ThreadHistory.request 11 with validateAnalysisOutput := fun _ => .ok houseText }

/-- A session is analysed, and the script is called. -/
theorem presentable_always_house :
    Always (Integrity.step ⟨"mock", "mock-v1", 3⟩) (Stored (Presentable readText))
      { Database.empty with sessions := [⟨7, 3, .active, 0, 0⟩] }
      [.operation (.analyse request 7 .auto), .cleanup true] := by
  refine presentable_always (by rintro row ⟨⟩) fun e he => ?_
  rcases List.mem_pair.mp he with rfl | rfl
  · intro payload json hjson
    cases hjson
    exact ⟨dreamAnalysisV1.dump house, house, by decide, if_pos rfl⟩
  · trivial

end Example

end LiberNovus.Analysis.Presentation

import LiberNovus.Memory.Extraction
import LiberNovus.Runtime.Settlement

/-! The interpretive markers in a stored dream memory. The reply of the provider is checked for
them; the detail that stands in for missing details is taken from the dream afterwards.

Proved: the stored memory has no marker exactly when the reply lists a detail, or the start of
the dream has none. -/

namespace LiberNovus.Memory

open Session UnitOfWork

def enrichDreamMemory (env : Environment) (sessionId : Uuid) (dreamId : ℕ) (userId : ℤ)
    (analysisJobId : Option Uuid) : Run Unit := do
  let memory ← enrichedMemory env sessionId dreamId
  let _ ← upsertDreamMemory env dreamId sessionId userId memory analysisJobId

/-- The value contains a marker, in lower case. -/
def Marked (lower : String → String) (value : String) : Prop :=
  ∃ marker ∈ forbiddenInterpretiveMarkers, marker.toList <:+: (lower value).toList

instance (lower : String → String) (value : String) : Decidable (Marked lower value) :=
  inferInstanceAs (Decidable (∃ _ ∈ _, _))

/-- No string of the memory contains a marker. -/
def Unmarked (lower : String → String) (memory : StructuredDreamMemoryV1) : Prop :=
  ∀ value ∈ memory.strings, ¬ Marked lower value

/-- The memory is what the reply of the provider is validated to. -/
def Extracted (env : Environment) (memory : StructuredDreamMemoryV1) : Prop :=
  ∃ llm prompt raw payload, env.getProvider = .ok llm ∧
    generateWithRetry env.llmMaxAttempts llm prompt memoryPromptVersion (some memoryTemperature) =
      .ok raw ∧
    env.parseResponse raw.rawText = .ok payload ∧ env.validateMemory payload = .ok memory

/-- The detail that stands in for missing details. -/
def dreamDetail (dream : Dream) : String := String.ofList (dream.text.toList.take 500)

/-! ### The check -/

section Check

variable {lower : String → String} {memory memory' : StructuredDreamMemoryV1}

theorem sanitizeMemory_eq_ok : sanitizeMemory lower memory = .ok memory' ↔
    Unmarked lower memory ∧ memory' = memory := by
  unfold sanitizeMemory
  constructor
  · intro h
    split at h
    · cases h
    · next hn =>
      cases h
      exact ⟨fun value hv hm => hn ⟨value, hv, hm⟩, rfl⟩
  · rintro ⟨h, rfl⟩
    exact if_neg fun ⟨value, hv, hm⟩ => h value hv hm

/-- The strings with another detail in place of none. -/
theorem strings_withDetails {dream : Dream} (h : memory.dreamDetails = []) :
    (memory.withDetails dream).strings = dreamDetail dream :: memory.strings := by
  simp [StructuredDreamMemoryV1.withDetails, StructuredDreamMemoryV1.strings, dreamDetail, h]

/-- What is added after the check is not checked. -/
theorem unmarked_withDetails_iff (h : Unmarked lower memory) (dream : Dream) :
    Unmarked lower (memory.withDetails dream) ↔
      memory.dreamDetails ≠ [] ∨ ¬ Marked lower (dreamDetail dream) := by
  by_cases hnone : memory.dreamDetails = []
  · rw [Unmarked, strings_withDetails hnone, List.forall_mem_cons]
    simp only [hnone, ne_eq, not_true_eq_false, false_or]
    exact and_iff_left h
  · rw [StructuredDreamMemoryV1.withDetails, if_neg hnone]
    exact iff_of_true h (.inl hnone)

end Check

/-! ### What is stored -/

section Stored

variable {env : Environment} {sessionId : Uuid} {dreamId : ℕ} {userId : ℤ}
  {analysisJobId : Option Uuid} {memory : StructuredDreamMemoryV1}
  {s t : AsyncSession Database}

theorem lift_mapError_ok {α β : Type} {result : Except β α} {f : β → Exc} {a : α}
    (h : (Tx.lift (result.mapError f) : Run α) s = (.ok a, t)) : result = .ok a ∧ t = s := by
  cases result with
  | error e => cases h
  | ok b =>
    cases h
    exact ⟨rfl, rfl⟩

/-- An extracted memory has no marker. -/
theorem extract_ok (h : extract env sessionId dreamId s = (.ok memory, t)) :
    Extracted env memory ∧ Unmarked env.lower memory := by
  obtain ⟨session, s₁, -, h⟩ := Tx.bind_eq_ok.mp h
  obtain ⟨dream, s₂, -, h⟩ := Tx.bind_eq_ok.mp h
  obtain ⟨raw, s₃, hraw, h⟩ := Tx.bind_eq_ok.mp h
  obtain ⟨payload, s₄, hparse, h⟩ := Tx.bind_eq_ok.mp h
  obtain ⟨validated, s₅, hvalidate, h⟩ := Tx.bind_eq_ok.mp h
  obtain ⟨llm, s₆, hllm, hraw⟩ := Tx.bind_eq_ok.mp hraw
  obtain ⟨_, s₇, -, hraw⟩ := Tx.bind_eq_ok.mp hraw
  obtain ⟨hclean, rfl⟩ := sanitizeMemory_eq_ok.mp (lift_mapError_ok h).1
  exact ⟨⟨llm, _, raw, payload, (lift_mapError_ok hllm).1, (lift_mapError_ok hraw).1,
    (lift_mapError_ok hparse).1, (lift_mapError_ok hvalidate).1⟩, hclean⟩

/-- The row is in the table, with the memory it was given. -/
theorem upsertDreamMemory_ok {row : DreamMemory}
    (h : upsertDreamMemory env dreamId sessionId userId memory analysisJobId s = (.ok row, t)) :
    row ∈ t.tables.memories ∧ row.dreamId = dreamId ∧ row.memoryJson = memory := by
  obtain ⟨existing, s₁, hquery, h⟩ := Tx.bind_eq_ok.mp h
  have hexisting := Tx.eq_of_query hquery
  have hs : s₁ = s := by
    unfold Tx.query Tx.statement at hquery
    split at hquery <;> cases hquery
    rfl
  subst hs
  have hflush : ∀ {f : Database → Database} {u : AsyncSession Database},
      env.flush .saveMemory f s₁ = (.ok ⟨⟩, u) → u.tables = f s₁.tables := by
    intro f u hu
    unfold Environment.flush Tx.flush at hu
    split at hu
    · split at hu <;> cases hu
      rfl
    · cases hu
  cases existing with
  | none =>
    obtain ⟨_, s₂, hsave, hrow⟩ := Tx.bind_eq_ok.mp h
    cases hrow
    rw [hflush hsave]
    exact ⟨by simp, rfl, rfl⟩
  | some existing =>
    obtain ⟨_, s₂, hsave, hrow⟩ := Tx.bind_eq_ok.mp h
    have hmem := List.mem_of_find?_eq_some hexisting.symm
    have hdream := List.find?_some hexisting.symm
    cases hrow
    rw [hflush hsave]
    exact ⟨List.mem_map.mpr ⟨existing, hmem, if_pos rfl⟩, by simpa using hdream, rfl⟩

end Stored

/-- The stored memory has no marker if and only if the reply lists a detail or the start of the
dream has no marker. -/
theorem enrichDreamMemory_unmarked_iff {env : Environment} {sessionId : Uuid} {dreamId : ℕ}
    {userId : ℤ} {analysisJobId : Option Uuid} {db after : Database}
    (h : Tx.transaction (enrichDreamMemory env sessionId dreamId userId analysisJobId) db =
      (.ok (), after)) :
    ∃ dream memory row, findDream db.dreams dreamId sessionId = some dream ∧ Extracted env memory ∧
      row ∈ after.memories ∧ row.dreamId = dreamId ∧ row.memoryJson = memory.withDetails dream ∧
      (Unmarked env.lower row.memoryJson ↔
        memory.dreamDetails ≠ [] ∨ ¬ Marked env.lower (dreamDetail dream)) := by
  obtain ⟨t, hrun, rfl⟩ : ∃ t, enrichDreamMemory env sessionId dreamId userId analysisJobId
      (.opened db) = (.ok (), t) ∧ t.tables = after := by
    unfold Tx.transaction at h
    split at h
    · next t hrun =>
      split at h <;> cases h
      exact ⟨t, hrun, rfl⟩
    · cases h
  obtain ⟨stored, s₁, hstored, hrun⟩ := Tx.bind_eq_ok.mp hrun
  obtain ⟨row, s₂, hrow, hdone⟩ := Tx.bind_eq_ok.mp hrun
  obtain ⟨dream, s₃, hdream, hstored⟩ := Tx.bind_eq_ok.mp hstored
  obtain ⟨memory, s₄, hmemory, hstored⟩ := Tx.bind_eq_ok.mp hstored
  cases hstored
  obtain rfl : s₂ = t := congrArg Prod.snd hdone
  obtain ⟨hextracted, hclean⟩ := extract_ok hmemory
  obtain ⟨hmem, hid, hjson⟩ := upsertDreamMemory_ok hrow
  exact ⟨dream, memory, row, (require_ok hdream).1, hextracted, hmem, hid, hjson,
    hjson ▸ unmarked_withDetails_iff hclean dream⟩

namespace Markers

/-- The reply lists nothing. -/
def silent : StructuredDreamMemoryV1 := ⟨[], [], [], [], [], [], [], [], [], []⟩

def environment : Environment :=
  { Runtime.Settlement.environment [] "" with
    validateMemory := fun _ => .ok silent
    lower := fun s => String.ofList (s.toList.flatMap lowerLetter) }

def database (text : String) : Database :=
  { Runtime.Settlement.database with
    dreams := [⟨1, 3, text, 0, 7⟩] }

def enriched (text : String) : Except RunError Unit × Database :=
  Tx.transaction (enrichDreamMemory environment 7 1 3 none) (database text)

/-- A dream without markers stands in for the details. -/
theorem unmarked_plain : ∃ row ∈ (enriched "Иду по мосту над водой").2.memories,
    Unmarked environment.lower row.memoryJson := by
  obtain ⟨dream, memory, row, hdream, -, hrow, -, -, hiff⟩ := enrichDreamMemory_unmarked_iff
    (h := (rfl : enriched "Иду по мосту над водой" = (.ok (), _)))
  cases hdream
  exact ⟨row, hrow, hiff.mpr (.inr (by decide))⟩

/-- A dream of a shadow is stored, shadow and all. -/
theorem marked_shadow : ¬ ∀ (env : Environment) (sessionId : Uuid) (dreamId : ℕ) (userId : ℤ)
    (analysisJobId : Option Uuid) (db after : Database),
    Tx.transaction (enrichDreamMemory env sessionId dreamId userId analysisJobId) db =
      (.ok (), after) →
    ∀ row ∈ after.memories, row.dreamId = dreamId → Unmarked env.lower row.memoryJson := by
  intro h
  have hno := h environment 7 1 3 none (database "За мной шла Тень") _ rfl _ List.mem_cons_self rfl
  exact hno "За мной шла Тень" (by decide) (by decide)

end Markers

end LiberNovus.Memory

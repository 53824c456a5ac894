import LiberNovus.Foundation.Results
import LiberNovus.Prompts.Contract

/-! `validate_prompt_structure`: the prompt is taken apart at the first occurrences of its
headings, and each section is checked on its own. -/

namespace LiberNovus.Prompts

open Text Search Results

/-- The ways in which the validator raises: `str.index` and `int`. -/
inductive ValueError where
  | substringNotFound
  | invalidInt
  deriving DecidableEq, Repr

inductive StructuralValidationError where
  | badPrefix
  | missingSection (heading : List Char)
  | sectionOrder
  | missingContextField (name : List Char)
  | contextFieldOrder (expected actual : List (List Char))
  | dreamLogEmpty
  | dreamEntryShape (index : ℕ)
  | dreamEntryIndex (index : ℕ) (line : List Char)
  | dreamEntryText (index : ℕ)
  | dreamEntryTimestamp (index : ℕ)
  | missingSummaryField (name : List Char)
  | summaryFieldOrder (expected actual : List (List Char))
  | instructions (line : List Char)
  | framework (line : List Char)
  | outputFormat (line : List Char)
  deriving DecidableEq, Repr

namespace StructuralValidationError

def code : StructuralValidationError → String
  | badPrefix => "prefix"
  | missingSection _ => "missing_section"
  | sectionOrder => "section_order"
  | missingContextField _ => "missing_context_field"
  | contextFieldOrder _ _ => "context_field_order"
  | dreamLogEmpty => "dream_log_empty"
  | dreamEntryShape _ => "dream_entry_shape"
  | dreamEntryIndex _ _ => "dream_entry_index"
  | dreamEntryText _ => "dream_entry_text"
  | dreamEntryTimestamp _ => "dream_entry_timestamp"
  | missingSummaryField _ => "missing_summary_field"
  | summaryFieldOrder _ _ => "summary_field_order"
  | instructions _ => "instructions"
  | framework _ => "framework"
  | outputFormat _ => "output_format"

/-- `repr` of a list of texts. -/
def reprList (repr : List Char → String) (texts : List (List Char)) : String :=
  "[" ++ ", ".intercalate (texts.map repr) ++ "]"

/-- The detail; `repr` is the one of Python. -/
def detail (repr : List Char → String) : StructuralValidationError → String
  | badPrefix => "Missing or invalid prompt prefix"
  | missingSection heading => "Missing section: " ++ String.ofList heading
  | sectionOrder => "Sections are out of contract order"
  | missingContextField name | missingSummaryField name =>
    "Missing required field: " ++ String.ofList name
  | contextFieldOrder expected actual | summaryFieldOrder expected actual =>
    "Expected fields " ++ reprList repr expected ++ ", got " ++ reprList repr actual
  | dreamLogEmpty => "Expected empty-dream placeholder"
  | dreamEntryShape index => "Dream " ++ toString index ++ " must have 3 lines"
  | dreamEntryIndex index line =>
    "Expected [DREAM " ++ toString index ++ "], got " ++ repr line
  | dreamEntryText index => "Dream " ++ toString index ++ " missing text: line"
  | dreamEntryTimestamp index => "Dream " ++ toString index ++ " missing timestamp: line"
  | instructions line | framework line | outputFormat line =>
    "Missing required line: " ++ repr line

end StructuralValidationError

/-! ### Integers -/

/-- The zeros of the decimal digits of Unicode. -/
def decimalZeros : List ℕ :=
  [0x30, 0x660, 0x6f0, 0x7c0, 0x966, 0x9e6, 0xa66, 0xae6, 0xb66, 0xbe6, 0xc66, 0xce6, 0xd66, 0xde6,
    0xe50, 0xed0, 0xf20, 0x1040, 0x1090, 0x17e0, 0x1810, 0x1946, 0x19d0, 0x1a80, 0x1a90, 0x1b50,
    0x1bb0, 0x1c40, 0x1c50, 0xa620, 0xa8d0, 0xa900, 0xa9d0, 0xa9f0, 0xaa50, 0xabf0, 0xff10, 0x104a0,
    0x10d30, 0x11066, 0x110f0, 0x11136, 0x111d0, 0x112f0, 0x11450, 0x114d0, 0x11650, 0x116c0,
    0x11730, 0x118e0, 0x11950, 0x11c50, 0x11d50, 0x11da0, 0x16a60, 0x16ac0, 0x16b50, 0x1d7ce,
    0x1d7d8, 0x1d7e2, 0x1d7ec, 0x1d7f6, 0x1e140, 0x1e2f0, 0x1e950, 0x1fbf0]

/-- The value of a character that `\d` matches. -/
def decimalValue (c : Char) : Option ℕ :=
  (decimalZeros.find? fun z => z ≤ c.toNat ∧ c.toNat < z + 10).map (c.toNat - ·)

/-- Digits with single underscores between them. -/
def scanDigits : List Char → Option (List ℕ)
  | [] => none
  | [c] => (decimalValue c).map fun d => [d]
  | c :: c' :: t => do
    let d ← decimalValue c
    let ds ← if c' = '_' then scanDigits t else scanDigits (c' :: t)
    some (d :: ds)

/-- The digits that `int` takes. -/
def maxStrDigits : ℕ := 4300

/-- `int` of a text without a sign. -/
def intOfDigits (t : List Char) : Except ValueError ℕ :=
  match scanDigits t with
  | none => .error .invalidInt
  | some ds =>
    if maxStrDigits < ds.length then .error .invalidInt
    else .ok (ds.foldl (fun n d => 10 * n + d) 0)

/-- White space around a number; the separators of ASCII are not among it. -/
def isNumberSpace (c : Char) : Bool := isSpace c && !(0x1c ≤ c.toNat && c.toNat ≤ 0x1f)

/-- `int` of a text. -/
def pyInt (t : List Char) : Except ValueError ℤ :=
  match (t.dropWhile isNumberSpace).rdropWhile isNumberSpace with
  | [] => .error .invalidInt
  | c :: t =>
    if c = '-' then (intOfDigits t).map fun n => -(n : ℤ)
    else if c = '+' then (intOfDigits t).map fun n => (n : ℤ)
    else (intOfDigits (c :: t)).map fun n => (n : ℤ)

/-! ### Sections -/

/-- `text.strip("\n")`. -/
def stripNewlines (t : List Char) : List Char :=
  (t.dropWhile (· == '\n')).rdropWhile (· == '\n')

def extractSectionBody (prompt heading : List Char) (nextHeading : Option (List Char)) :
    Except ValueError (List Char) :=
  match cut heading prompt with
  | none => .error .substringNotFound
  | some (_, rest) =>
    match nextHeading with
    | none => .ok (rest.dropWhile (· == '\n'))
    | some next =>
      match cut next rest with
      | none => .error .substringNotFound
      | some (body, _) => .ok (stripNewlines body)

/-- `prompt.index(heading)`. -/
def index (heading prompt : List Char) : Except ValueError ℕ :=
  match cut heading prompt with
  | none => .error .substringNotFound
  | some (before, _) => .ok before.length

def validateSectionOrder (prompt : List Char) :
    Except ValueError (Option StructuralValidationError) := do
  let positions ← sections.mapM fun spec => index spec.heading prompt
  .ok (if positions ≠ positions.insertionSort (· ≤ ·) then some .sectionOrder else none)

/-! ### Fields -/

/-- The characters of `[a-z_]`. -/
def isNameChar (c : Char) : Bool := ('a' ≤ c && c ≤ 'z') || c == '_'

/-- The name and the value that `_FIELD_LINE` matches in a line. -/
def fieldLine (line : List Char) : Option (List Char × List Char) :=
  let name := line.takeWhile isNameChar
  let rest := line.dropWhile isNameChar
  if name ≠ [] ∧ [':', ' '] <+: rest ∧ rest.drop 2 ≠ [] then some (name, rest.drop 2) else none

/-- The field lines of a section; `_parse_field_lines` makes a dictionary of them. -/
def fieldLines (body : List Char) : List (List Char × List Char) :=
  (splitlines body).filterMap fieldLine

/-- `fields.get(name)`: the last line with the name counts. -/
def getField (fields : List (List Char × List Char)) (name : List Char) : Option (List Char) :=
  fields.reverse.lookup name

/-- The check of a section of fields: all that are required, then their order. -/
def validateFields (missing : List Char → StructuralValidationError)
    (order : List (List Char) → List (List Char) → StructuralValidationError)
    (body : List Char) (specs : List SectionFieldSpec) : Option StructuralValidationError :=
  let names := (fieldLines body).map Prod.fst
  match specs.find? fun spec => spec.required && spec.name ∉ names with
  | some spec => some (missing spec.name)
  | none =>
    let expected := specs.map SectionFieldSpec.name
    if names ≠ expected then some (order expected names) else none

def validateContextSection : List Char → List SectionFieldSpec → Option StructuralValidationError :=
  validateFields .missingContextField .contextFieldOrder

def validateSummarySection : List Char → List SectionFieldSpec → Option StructuralValidationError :=
  validateFields .missingSummaryField .summaryFieldOrder

/-! ### Dreams -/

/-- The digits that `_DREAM_MARKER` matches in a line. -/
def dreamMarker (line : List Char) : Option (List Char) :=
  let rest := line.drop "[DREAM ".length
  let digits := rest.takeWhile fun c => (decimalValue c).isSome
  if "[DREAM ".toList <+: line ∧ digits ≠ [] ∧ rest.drop digits.length = [']'] then some digits
  else none

def dreamBlocks (body : List Char) : List (List Char) :=
  ((paragraphs body).map strip).filter (· ≠ [])

def validateDreamBlock (i : ℕ) (block : List Char) :
    Except ValueError (Option StructuralValidationError) :=
  match splitlines block with
  | [marker, textLine, timestampLine] =>
    match dreamMarker marker with
    | none => .ok (some (.dreamEntryIndex i marker))
    | some digits => do
      if (← intOfDigits digits) ≠ i then .ok (some (.dreamEntryIndex i marker))
      else if ¬ "text: ".toList <+: textLine then .ok (some (.dreamEntryText i))
      else if ¬ "timestamp: ".toList <+: timestampLine then .ok (some (.dreamEntryTimestamp i))
      else .ok none
  | _ => .ok (some (.dreamEntryShape i))

/-- The check of the blocks, which are counted from `i`. -/
def validateDreamBlocks : ℕ → List (List Char) →
    Except ValueError (Option StructuralValidationError)
  | _, [] => .ok none
  | i, block :: blocks => do
    match ← validateDreamBlock i block with
    | some e => .ok (some e)
    | none => validateDreamBlocks (i + 1) blocks

def validateDreamSection (body : List Char) (dreamCount : ℤ) :
    Except ValueError (Option StructuralValidationError) :=
  if dreamCount = 0 then
    .ok (if body ≠ "(no dreams provided)".toList then some .dreamLogEmpty else none)
  else validateDreamBlocks 1 (dreamBlocks body)

/-! ### The prompt -/

def validateFixedSection (body : List Char) (requiredLines : List (List Char))
    (error : List Char → StructuralValidationError) : Option StructuralValidationError :=
  (requiredLines.find? fun line => ¬ line <:+: body).map error

def validateSections (prompt : List Char) : Except ValueError (List StructuralValidationError) := do
  let body (spec next : SectionSpec) := extractSectionBody prompt spec.heading (some next.heading)
  let context ← body contextSection dreamSection
  let dreams ← body dreamSection summarySection
  let summary ← body summarySection instructionsSection
  let instructions ← body instructionsSection frameworkSection
  let framework ← body frameworkSection outputFormatSection
  let outputFormat ← extractSectionBody prompt outputFormatSection.heading none
  let dreamCount ← pyInt ((getField (fieldLines context) "dream_count".toList).getD ['0'])
  let dreamError ← validateDreamSection dreams dreamCount
  .ok (List.reduceOption
    [validateContextSection context contextSection.fields, dreamError,
      validateSummarySection summary summarySection.fields,
      validateFixedSection instructions requiredInstructionLines .instructions,
      validateFixedSection framework requiredFrameworkItems .framework,
      validateFixedSection outputFormat requiredOutputFormatLines .outputFormat])

def validatePromptStructure (prompt : List Char) :
    Except ValueError (List StructuralValidationError) :=
  if ¬ promptPrefix <+: prompt then .ok [.badPrefix]
  else
    match sections.find? fun spec => ¬ spec.heading <:+: prompt with
    | some spec => .ok [.missingSection spec.heading]
    | none => do
      match ← validateSectionOrder prompt with
      | some e => .ok [e]
      | none => validateSections prompt

/-! ### Accepted prompts -/

def Accepted (prompt : List Char) : Prop := validatePromptStructure prompt = .ok []

theorem accepted_iff {prompt : List Char} : Accepted prompt ↔ promptPrefix <+: prompt ∧
    (∀ spec ∈ sections, spec.heading <:+: prompt) ∧ validateSectionOrder prompt = .ok none ∧
    validateSections prompt = .ok [] := by
  rw [Accepted, validatePromptStructure]
  split
  · next h => simp [h]
  · next h =>
    rw [not_not] at h
    split
    · next spec hspec =>
      have hmem := List.mem_of_find?_eq_some hspec
      have hno := List.find?_some hspec
      simp only [decide_eq_true_eq] at hno
      exact ⟨fun hc => absurd hc (by simp), fun hc => absurd (hc.2.1 spec hmem) hno⟩
    · next hall =>
      rw [List.find?_eq_none] at hall
      simp only [decide_eq_true_eq, not_not] at hall
      rw [bind_eq_ok]
      constructor
      · rintro ⟨e, he, hrest⟩
        cases e with
        | some e => exact absurd hrest (by simp)
        | none => exact ⟨h, hall, he, hrest⟩
      · rintro ⟨-, -, he, hrest⟩
        exact ⟨none, he, hrest⟩

/-- The bodies of the sections of a prompt. -/
structure Bodies (prompt : List Char) where
  context : List Char
  dreams : List Char
  summary : List Char
  instructions : List Char
  framework : List Char
  outputFormat : List Char
  ofContext : extractSectionBody prompt contextSection.heading (some dreamSection.heading) =
    .ok context
  ofDreams : extractSectionBody prompt dreamSection.heading (some summarySection.heading) =
    .ok dreams
  ofSummary : extractSectionBody prompt summarySection.heading (some instructionsSection.heading) =
    .ok summary
  ofInstructions : extractSectionBody prompt instructionsSection.heading
    (some frameworkSection.heading) = .ok instructions
  ofFramework : extractSectionBody prompt frameworkSection.heading
    (some outputFormatSection.heading) = .ok framework
  ofOutputFormat : extractSectionBody prompt outputFormatSection.heading none = .ok outputFormat

structure Bodies.Valid {prompt : List Char} (bodies : Bodies prompt) (dreamCount : ℤ) : Prop where
  count : pyInt ((getField (fieldLines bodies.context) "dream_count".toList).getD ['0']) =
    .ok dreamCount
  context : validateContextSection bodies.context contextSection.fields = none
  dreams : validateDreamSection bodies.dreams dreamCount = .ok none
  summary : validateSummarySection bodies.summary summarySection.fields = none
  instructions : validateFixedSection bodies.instructions requiredInstructionLines .instructions =
    none
  framework : validateFixedSection bodies.framework requiredFrameworkItems .framework = none
  outputFormat : validateFixedSection bodies.outputFormat requiredOutputFormatLines .outputFormat =
    none

theorem validateSections_eq_nil {prompt : List Char} : validateSections prompt = .ok [] ↔
    ∃ (bodies : Bodies prompt) (dreamCount : ℤ), bodies.Valid dreamCount := by
  simp only [validateSections, bind_eq_ok, Except.ok.injEq]
  constructor
  · rintro ⟨c, hc, d, hd, s, hs, i, hi, f, hf, o, ho, n, hn, e, he, h⟩
    change List.filterMap id _ = [] at h
    simp only [List.filterMap_eq_nil_iff, List.forall_mem_cons, id] at h
    obtain ⟨hcontext, rfl, hsummary, hinstructions, hframework, houtput, -⟩ := h
    exact ⟨⟨c, d, s, i, f, o, hc, hd, hs, hi, hf, ho⟩, n,
      ⟨hn, hcontext, he, hsummary, hinstructions, hframework, houtput⟩⟩
  · rintro ⟨⟨c, d, s, i, f, o, hc, hd, hs, hi, hf, ho⟩, n, h⟩
    refine ⟨c, hc, d, hd, s, hs, i, hi, f, hf, o, ho, n, h.count, none, h.dreams, ?_⟩
    change List.filterMap id _ = []
    simp only [List.filterMap_eq_nil_iff, List.forall_mem_cons, id]
    exact ⟨h.context, trivial, h.summary, h.instructions, h.framework, h.outputFormat, by simp⟩

theorem validateSections_of_bodies {prompt c d s i f o : List Char} {n : ℤ}
    (hc : extractSectionBody prompt contextSection.heading (some dreamSection.heading) = .ok c)
    (hd : extractSectionBody prompt dreamSection.heading (some summarySection.heading) = .ok d)
    (hs : extractSectionBody prompt summarySection.heading (some instructionsSection.heading) = .ok s)
    (hi : extractSectionBody prompt instructionsSection.heading (some frameworkSection.heading) =
      .ok i)
    (hf : extractSectionBody prompt frameworkSection.heading (some outputFormatSection.heading) =
      .ok f)
    (ho : extractSectionBody prompt outputFormatSection.heading none = .ok o)
    (hn : pyInt ((getField (fieldLines c) "dream_count".toList).getD ['0']) = .ok n)
    (hcontext : validateContextSection c contextSection.fields = none)
    (hdreams : validateDreamSection d n = .ok none)
    (hsummary : validateSummarySection s summarySection.fields = none)
    (hinstructions : validateFixedSection i requiredInstructionLines .instructions = none)
    (hframework : validateFixedSection f requiredFrameworkItems .framework = none)
    (houtput : validateFixedSection o requiredOutputFormatLines .outputFormat = none) :
    validateSections prompt = .ok [] :=
  validateSections_eq_nil.mpr ⟨⟨c, d, s, i, f, o, hc, hd, hs, hi, hf, ho⟩, n,
    ⟨hn, hcontext, hdreams, hsummary, hinstructions, hframework, houtput⟩⟩

end LiberNovus.Prompts

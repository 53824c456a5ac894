import Mathlib.Algebra.Group.Nat.Defs
import LiberNovus.Foundation.Lines
import LiberNovus.Foundation.Search
import LiberNovus.Prompts.Compiler

/-! The contract of the analysis prompt: its headings and fields, the lines that its fixed
sections must have, and the text of these sections, which is taken from an asset. -/

namespace LiberNovus.Prompts

open Text Search

structure SectionFieldSpec where
  name : List Char
  required : Bool
  deriving DecidableEq, Repr

structure SectionSpec where
  heading : List Char
  fields : List SectionFieldSpec
  deriving DecidableEq, Repr

/-- A field with the default of `required`. -/
def field (name : String) : SectionFieldSpec := ⟨name.toList, true⟩

/-! ### `JUNGIAN_PROMPT_CONTRACT_V2` -/

/-- `PROMPT_PREFIX_V2`. -/
def promptPrefix : List Char := "[CONTROLLED JUNGIAN PROMPT v2]".toList

def contextSection : SectionSpec :=
  ⟨"## 1. КОНТЕКСТ СЕССИИ (ФАКТЫ)".toList,
    [field "session_id", field "user_id", field "dream_count", field "session_duration",
      field "last_activity_at"]⟩

def dreamSection : SectionSpec := ⟨"## 2. ЖУРНАЛ СНОВ (ДОСЛОВНО)".toList, []⟩

def summarySection : SectionSpec :=
  ⟨"## 3. СВОДКА СЕССИИ (СТРУКТУРА)".toList,
    [field "key_symbols", field "recurring_words", field "raw_text_sample"]⟩

def instructionsSection : SectionSpec := ⟨"## 4. ПРАВИЛА РЕФЛЕКСИИ".toList, []⟩

def frameworkSection : SectionSpec := ⟨"## 5. АНАЛИТИЧЕСКИЙ ФОКУС".toList, []⟩

def outputFormatSection : SectionSpec := ⟨"## 6. ФОРМАТ ОТВЕТА (JSON)".toList, []⟩

def sections : List SectionSpec :=
  [contextSection, dreamSection, summarySection, instructionsSection, frameworkSection,
    outputFormatSection]

def requiredFrameworkItems : List (List Char) :=
  ["1. Ключевые мотивы и образы".toList,
    "2. Эмоциональный тон и динамика".toList,
    "3. Повторяющиеся символы".toList,
    "4. Возможные архетипические гипотезы (1-3, только при опоре на материал)".toList,
    "5. Внутренние напряжения / конфликт".toList,
    "6. Открытые вопросы для дальнейшего исследования".toList]

def requiredInstructionLines : List (List Char) :=
  ["Вы — аналитический модуль юнгианской рефлексии.".toList,
    "Правила:".toList,
    "- Сон не имеет фиксированного значения.".toList]

def requiredOutputFormatLines : List (List Char) :=
  ["Верните только один JSON-объект.".toList, "Обязательные JSON-ключи:".toList]

/-! ### The fixed sections -/

/-- The lines of the asset `reflection/dream_analysis_v2_ru.md`. -/
def dreamAnalysisAsset : List String :=
  [ "# Dream Analysis Prompt v2 RU",
    "",
    "## 4. ПРАВИЛА РЕФЛЕКСИИ",
    "",
    "Вы — аналитический модуль юнгианской рефлексии.",
    "",
    "Правила:",
    "- Используйте только данные из текущего ввода.",
    "- Не добавляйте факты, которых нет в материале сна.",
    "- Сон не имеет фиксированного значения.",
    "- Мы исследуем, а не интерпретируем окончательно.",
    "- Формулируйте только возможные гипотезы.",
    "- Вопросы важнее выводов.",
    "- Не используйте утверждения типа «это означает».",
    "- Не используйте фразы «ваш сон говорит» и диагностический стиль.",
    "- При нехватке данных фиксируйте неопределенность в uncertainty_notes.",
    "- Все текстовые значения в ответе должны быть на русском языке.",
    "",
    "## 5. АНАЛИТИЧЕСКИЙ ФОКУС",
    "",
    "Используйте эту структуру анализа:",
    "1. Ключевые мотивы и образы",
    "2. Эмоциональный тон и динамика",
    "3. Повторяющиеся символы",
    "4. Возможные архетипические гипотезы (1-3, только при опоре на материал)",
    "5. Внутренние напряжения / конфликт",
    "6. Открытые вопросы для дальнейшего исследования",
    "",
    "## 6. ФОРМАТ ОТВЕТА (JSON)",
    "",
    "Режим анализа сновидения: вы аналитический модуль, а не чат-ассистент.",
    "Верните только один JSON-объект. Без markdown и без текста вне JSON.",
    "Не возвращайте ответ в виде свободного эссе без JSON.",
    "Обязательные JSON-ключи:",
    "- \"summary\": string",
    "- \"symbols\": list of \x7b\"symbol\": string, \"meaning\": string, \"emotional_charge\": string\x7d",
    "- \"emotional_state\": \x7b\"primary\": string, \"secondary\": string, \"intensity\": number 0-1\x7d",
    "- \"jungian_interpretation\": \x7b\"archetypes\": list of strings, \"shadow_elements\": list of strings, \"anima_animus_signals\": list of strings, \"individuation_hint\": string\x7d",
    "- \"narrative_interpretation\": string",
    "- \"key_insight\": string",
    "- \"uncertainty_notes\": list of strings",
    "Все строковые значения JSON должны быть на русском языке.",
    "Опирайтесь только на предоставленный материал сна.",
    "Если данных недостаточно, заполняйте uncertainty_notes вместо домысливания."]

/-- `load_prompt_asset_text`: the text of the file, stripped. -/
def loadPromptAssetText : List Char :=
  strip (join ['\n'] (dreamAnalysisAsset.map String.toList ++ [[]]))

/-- `_extract_markdown_section`; the import fails when a heading is missing. -/
def extractMarkdownSection (markdown heading : List Char) (nextHeading : Option (List Char)) :
    Option (List (List Char)) := do
  let (_, rest) ← cut heading markdown
  match nextHeading with
  | none => some (splitlines (strip rest))
  | some next =>
    let (body, _) ← cut next rest
    some (splitlines (strip body))

def fixedAnalysisInstructions : List (List Char) :=
  (extractMarkdownSection loadPromptAssetText instructionsSection.heading
    (some frameworkSection.heading)).getD []

def fixedAnalyticalFramework : List (List Char) :=
  (extractMarkdownSection loadPromptAssetText frameworkSection.heading
    (some outputFormatSection.heading)).getD []

def fixedOutputFormat : List (List Char) :=
  (extractMarkdownSection loadPromptAssetText outputFormatSection.heading none).getD []

end LiberNovus.Prompts

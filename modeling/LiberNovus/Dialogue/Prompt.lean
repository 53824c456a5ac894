import LiberNovus.Dialogue.Policy
import LiberNovus.Prompts.Compiler

/-! The prompt of a dialogue turn: what is kept of the profile of a user, and the parts of the
prompt, of which the empty ones are left out. -/

namespace LiberNovus.Dialogue

open Prompts Text

/-! ### The profile -/

/-- `sanitize_user_display_name`: the first line, without control characters. -/
def sanitizeUserDisplayName : Option String → Option String
  | none => none
  | some raw =>
    let firstLine := (raw.toList.takeWhile (· ≠ '\n')).takeWhile (· ≠ '\r')
    let cleaned := squeeze (firstLine.map fun c =>
      if c.toNat < 0x20 ∨ c.toNat = 0x7f then ' ' else c)
    if cleaned = [] then none else some (String.ofList (cleaned.take 64))

/-- `[a-z]`. -/
def isLowerLatin (c : Char) : Bool := 'a' ≤ c && c ≤ 'z'

/-- `_LANGUAGE_CODE_RE`, on text without a line feed at its end. -/
def isLanguageCode (code : List Char) : Bool :=
  let language := code.takeWhile isLowerLatin
  (language.length == 2 || language.length == 3) &&
    match code.dropWhile isLowerLatin with
    | [] => true
    | c :: region => c == '-' && region.all isLowerLatin && 2 ≤ region.length && region.length ≤ 8

def sanitizeLanguageCode [CaseTable] : Option String → Option String
  | none => none
  | some raw =>
    let cleaned := CaseTable.lower (strip raw.toList)
    if cleaned = [] ∨ 16 < cleaned.length then none
    else if isLanguageCode cleaned then some (String.ofList cleaned)
    else none

/-! ### The parts -/

def formatIsoUtc (t : Time) : String :=
  let total := t / 1000000
  let (year, month, day) := civil (total / 86400)
  let rest := total % 86400
  s!"{padded 4 year}-{padded 2 month}-{padded 2 day}T{padded 2 (rest / 3600)}" ++
    s!":{padded 2 (rest % 3600 / 60)}:{padded 2 (rest % 60)}+00:00"

def formatParticipantSection (userDisplayName userLanguageCode : Option String) : String :=
  let displayName := userDisplayName.getD ""
  let languageCode := userLanguageCode.getD ""
  if displayName = "" ∧ languageCode = "" then ""
  else "\n".intercalate (
    ["## Участник (профиль Telegram)", "source: telegram_profile"] ++
    (if displayName = "" then [] else
      [s!"display_name: {displayName}",
        "name_hint: подсказка из профиля Telegram; не обязательно копировать буквально в ответ"]) ++
    (if languageCode = "" then [] else [s!"language_code: {languageCode}"]) ++
    ["", "Правила обращения:",
      "- Имя и язык — только из профиля Telegram, не из текста сообщения пользователя.",
      "- 0–1 обращение по имени за ответ, когда уместно; не в каждом ответе.",
      "- Одна форма имени за ответ; не дублируйте и не смешивайте (не «Andrey, Андрей»).",
      "- Не сочетайте имя и приветствие неловко (не «Имя, привет»)."] ++
    (if "ru".toList <+: languageCode.toList then
      ["- При language_code ru предпочитайте естественную русскую форму имени, если она " ++
        "очевидна (Andrey → Андрей), вместо буквальной латиницы из профиля."]
    else if displayName ≠ "" then
      ["- Если диалог на русском, можно использовать естественную русскую форму имени вместо " ++
        "латиницы из профиля, когда это уместно."]
    else []) ++
    ["- На короткие реплики вроде «привет» отвечайте кратко и естественно."])

def formatTemporalSection (currentTimeUtc : Time) (lastUserMessageAt : Option Time) : String :=
  "\n".intercalate (
    ["## Временной контекст", s!"current_time_utc: {formatIsoUtc currentTimeUtc}"] ++
    match lastUserMessageAt with
    | some t => [s!"last_user_message_at: {formatIsoUtc t}"]
    | none =>
      ["last_user_message_at: нет предыдущего сообщения пользователя в этой сессии",
        "session_note: первое сообщение пользователя в этой сессии"])

/-! ### The prompt -/

/-- The texts of the two assets, stripped and not empty. -/
structure DialogueAssets where
  companionStyleAnchor : String
  dialogueOutputInstructions : String
  deriving DecidableEq, Repr

/-- The profile as the message carries it. -/
structure UserProfile where
  displayName : Option String
  languageCode : Option String
  deriving DecidableEq, Repr

/-- What stands for the dialogue when there is none. -/
def firstMessagePlaceholder : String := "(первое сообщение в сессии)"

/-- `build_dialogue_prompt`, as `generate_dialogue_turn` calls it. -/
def buildDialoguePrompt [CaseTable] (assets : DialogueAssets) (profile : UserProfile)
    (currentTime : Time) (userMessage sessionContext recentDialogue : String)
    (lastUserMessageAt : Option Time) : String :=
  let displayName := sanitizeUserDisplayName profile.displayName
  let language := sanitizeLanguageCode (sanitizeLanguageCode profile.languageCode)
  "\n\n".intercalate ([assets.companionStyleAnchor,
    "## Текущий контекст сессии",
    if sessionContext = "" then "(нет дополнительного контекста)" else sessionContext,
    "## Недавний диалог",
    if recentDialogue = "" then firstMessagePlaceholder else recentDialogue,
    formatParticipantSection displayName language,
    formatTemporalSection currentTime lastUserMessageAt,
    "## Сообщение пользователя",
    userMessage,
    assets.dialogueOutputInstructions].filter (· ≠ ""))

end LiberNovus.Dialogue

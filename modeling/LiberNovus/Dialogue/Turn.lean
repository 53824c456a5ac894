import Mathlib.Data.List.ReduceOption
import LiberNovus.Foundation.Json.Encoder
import LiberNovus.Foundation.Json.Fields
import LiberNovus.Foundation.Text
import LiberNovus.Responses.Parser
import LiberNovus.Session.Summary

/-! `DialogueTurnV1`, the contract of a turn of the companion, and the two parts in which the
ingress stores a turn: the message, and the other fields as `metadata_json`.

Proved: a turn that was accepted has a fixed form, and every turn of that form is accepted
again, whole or put together from its two parts, and is the same turn. -/

namespace LiberNovus.Dialogue

open Json Responses Results

/-! ### Background notes -/

/-- `str.lower`, on text that may hold lone surrogates, and `str` of a `float`. -/
class PyText where
  lower : Str → Str
  ofFloat : Float.Model → Str

/-- `str.lower` looks at no letter across white space. -/
class LawfulPyText [PyText] : Prop where
  lower_between {before after : Str} (text : Str) : Spaces before → Spaces after →
    PyText.lower (before ++ (text ++ after)) = before ++ (PyText.lower text ++ after)

/-- The `ValueError` of `str` for an integer of too many digits. -/
def digitsMessage : String :=
  "Exceeds the limit (4300 digits) for integer string conversion; use " ++
    "sys.set_int_max_str_digits() to increase the limit"

section Notes

variable [PyText]

/-- What `_coerce_background_note_value` makes of a value that is not a list, and of an item of
a list; `none` is dropped. -/
def coerceScalar : Value Float.Model → Except FieldError (Option Str)
  | .str s => .ok (some s)
  | .bool b => .ok (some (if b then text "true" else text "false"))
  | .int n =>
    match encodeInt n with
    | some digits => .ok (some digits)
    | none => .error (.valueError digitsMessage)
  | .float x => .ok (some (PyText.ofFloat x))
  | .null | .arr _ | .obj _ => .ok none

def coerceBackgroundNoteValue :
    Value Float.Model → Except FieldError (Option (Value Float.Model))
  | .arr items => do
    let coerced ← items.mapM coerceScalar
    .ok (some (.arr (coerced.reduceOption.map .str)))
  | raw => do
    let coerced ← coerceScalar raw
    .ok (coerced.map .str)

/-- What `_normalize_background_notes` keeps of a member. -/
def normalizeMember (member : Str × Value Float.Model) :
    Except FieldError (Option (Str × Value Float.Model)) := do
  let coerced ← coerceBackgroundNoteValue member.2
  .ok (coerced.map fun v => (member.1, v))

/-- `_normalize_background_notes`; the keys of a JSON object are strings. -/
def normalizeBackgroundNotes : Value Float.Model → Except FieldError (Value Float.Model)
  | .obj members => do
    let normalized ← members.mapM normalizeMember
    .ok (.obj normalized.reduceOption)
  | _ => .ok (.obj [])

end Notes

/-- A `_BackgroundNoteValue`. -/
inductive Note where
  | text (s : Str)
  | list (l : List Str)
  deriving DecidableEq, Repr

def Note.dump : Note → Value Float.Model
  | .text s => .str s
  | .list l => .arr (l.map .str)

def Note.strings : Note → List Str
  | .text s => [s]
  | .list l => l

def dumpMember (member : Str × Note) : Str × Value Float.Model := (member.1, member.2.dump)

/-! ### The model -/

structure DialogueTurnV1 where
  assistantMessage : Str
  focus : List Str
  questions : List Str
  backgroundNotes : List (Str × Note)
  emotionalIntensity : Float.Model
  safetyFlags : List Str
  deriving DecidableEq

def forbiddenPhrases : List String :=
  ["это означает", "ваш сон говорит", "вы точно", "главный смысл сна", "основное значение сна",
    "это значит"]

/-- The literals `0.0`, `0.5` and `1.0`. -/
def zeroFloat : Float.Model := Float.Model.ofScientific 0 0
def halfFloat : Float.Model := Float.Model.ofScientific 5 (-1)
def oneFloat : Float.Model := Float.Model.ofScientific 1 0

def turnFields : List Str :=
  [text "assistant_message", text "focus", text "questions", text "background_notes",
    text "emotional_intensity", text "safety_flags"]

section Validation

variable [PyText] [Pydantic Float.Model]

/-- `assistant_message`, and `_reject_authoritarian_language` after it. -/
def readMessage (v : Value Float.Model) : Except FieldError Str := do
  let value ← readText v
  match forbiddenPhrases.find? fun phrase => text phrase <:+: PyText.lower value with
  | some phrase => .error (.valueError s!"assistant_message contains forbidden phrase: {phrase}")
  | none =>
    let stripped := strip value
    if stripped.length < 20 then
      .error (.valueError "assistant_message is too short for a companion turn")
    else .ok stripped

omit [PyText] in
/-- `questions`, and `_limit_questions` after it. -/
def readQuestions (v : Value Float.Model) : Except FieldError (List Str) := do
  let value ← readTexts (some 3) v
  .ok (((value.map strip).filter (· ≠ [])).take 3)

omit [PyText] in
/-- `str | list[str]`. -/
def readNote : Value Float.Model → Except FieldError Note
  | .str s => do .ok (.text (← readText (F := Float.Model) (.str s)))
  | .arr items => do .ok (.list (← readTexts (F := Float.Model) none (.arr items)))
  | _ => .error .stringType

omit [PyText] in
/-- A member of `background_notes`. -/
def readMember (member : Str × Value Float.Model) : Except FieldError (Str × Note) := do
  let key ← readText (F := Float.Model) (.str member.1)
  let note ← readNote member.2
  .ok (key, note)

/-- `background_notes`, and `_normalize_background_notes` before it. -/
def readNotes (v : Value Float.Model) : Except FieldError (List (Str × Note)) := do
  match ← normalizeBackgroundNotes v with
  | .obj members => members.mapM readMember
  | _ => .error .dictType

omit [PyText] in
/-- `emotional_intensity`; a NaN is within every bound. -/
def readIntensity (v : Value Float.Model) : Except FieldError Float.Model :=
  match Pydantic.toFloat v with
  | none => .error .floatType
  | some x =>
    if oneFloat < x then .error .lessThanEqual
    else if x < zeroFloat then .error .greaterThanEqual
    else .ok x

def modelValidate : Value Float.Model → Except (List (Str × FieldError)) DialogueTurnV1
  | .obj members =>
    let message := readField members (text "assistant_message") (.error .missing) readMessage
    let focus := readField members (text "focus") (.ok []) (readTexts (some 3))
    let questions := readField members (text "questions") (.ok []) readQuestions
    let notes := readField members (text "background_notes") (.ok []) readNotes
    let intensity := readField members (text "emotional_intensity") (.ok halfFloat) readIntensity
    let flags := readField members (text "safety_flags") (.ok []) (readTexts none)
    let extra := (members.map Prod.fst).filter (· ∉ turnFields)
    match message, focus, questions, notes, intensity, flags, extra with
    | .ok message, .ok focus, .ok questions, .ok notes, .ok intensity, .ok flags, [] =>
      .ok ⟨message, focus, questions, notes, intensity, flags⟩
    | message, focus, questions, notes, intensity, flags, extra =>
      .error (errorsOf (text "assistant_message") message ++ errorsOf (text "focus") focus ++
        errorsOf (text "questions") questions ++ errorsOf (text "background_notes") notes ++
        errorsOf (text "emotional_intensity") intensity ++ errorsOf (text "safety_flags") flags ++
        extra.map fun name => (name, .extraForbidden))
  | _ => .error [([], .modelType)]

end Validation

def DialogueTurnV1.modelDump (turn : DialogueTurnV1) : List (Str × Value Float.Model) :=
  [(text "assistant_message", .str turn.assistantMessage),
    (text "focus", .arr (turn.focus.map .str)),
    (text "questions", .arr (turn.questions.map .str)),
    (text "background_notes", .obj (turn.backgroundNotes.map dumpMember)),
    (text "emotional_intensity", .float turn.emotionalIntensity),
    (text "safety_flags", .arr (turn.safetyFlags.map .str))]

/-- The `text` and the `metadata_json` of the assistant turn: the dumped model, from which
`assistant_message` is popped. -/
def DialogueTurnV1.stored (turn : DialogueTurnV1) : Str × List (Str × Value Float.Model) :=
  (turn.assistantMessage,
    turn.modelDump.filter fun member => member.1 ≠ text "assistant_message")

/-! ### What is left of a field -/

theorem strip_strip (s : Str) : strip (strip s) = strip s := Text.trim_trim s

section Fields

variable [Pydantic Float.Model]

theorem taken_strip {s : Str} (h : Taken Float.Model s) : Taken Float.Model (strip s) :=
  fun c hc => h c ((strip_inside s).subset hc)

/-- A question that is accepted as it is. -/
structure GoodQuestion (question : Str) : Prop where
  taken : Taken Float.Model question
  stripped : strip question = question
  nonempty : question ≠ []

/-- The key and the texts of a note may be strings. -/
def GoodNote (member : Str × Note) : Prop :=
  Taken Float.Model member.1 ∧ ∀ s ∈ member.2.strings, Taken Float.Model s

theorem good_of_readQuestions {v : Value Float.Model} {questions : List Str}
    (h : readQuestions v = .ok questions) :
    questions.length ≤ 3 ∧ ∀ q ∈ questions, GoodQuestion q := by
  obtain ⟨value, hvalue, h⟩ := bind_eq_ok.mp h
  cases h
  obtain ⟨-, -, htaken⟩ := readTexts_eq_ok.mp hvalue
  refine ⟨List.length_take_le _ _, fun q hq => ?_⟩
  obtain ⟨hq, hne⟩ := List.mem_filter.mp (List.mem_of_mem_take hq)
  obtain ⟨item, hitem, rfl⟩ := List.mem_map.mp hq
  exact ⟨taken_strip (htaken item hitem), strip_strip item, by simpa using hne⟩

theorem readQuestions_of_good {questions : List Str} (hlen : questions.length ≤ 3)
    (h : ∀ q ∈ questions, GoodQuestion q) :
    readQuestions (.arr (questions.map .str)) = .ok questions := by
  have hread : readTexts (F := Float.Model) (some 3) (.arr (questions.map .str)) = .ok questions :=
    readTexts_eq_ok.mpr ⟨rfl, by simpa using hlen, fun q hq => (h q hq).taken⟩
  have hsame : questions.map strip = questions := by
    conv_rhs => rw [← List.map_id questions]
    exact List.map_congr_left fun q hq => (h q hq).stripped
  have hkept : questions.filter (fun q => q ≠ []) = questions :=
    List.filter_eq_self.mpr fun q hq => by simpa using (h q hq).nonempty
  simp only [readQuestions, hread, bind, Except.bind, hsame, hkept]
  rw [List.take_of_length_le hlen]

theorem readNote_eq_ok {v : Value Float.Model} {note : Note} :
    readNote v = .ok note ↔ v = note.dump ∧ ∀ s ∈ note.strings, Taken Float.Model s := by
  cases note with
  | text s =>
    cases v <;> simp [readNote, Note.dump, Note.strings, bind_eq_ok, readText_eq_ok]
  | list l =>
    cases v <;> simp [readNote, Note.dump, Note.strings, bind_eq_ok, readTexts_eq_ok]

theorem readMember_eq_ok (member : Str × Value Float.Model) (note : Str × Note) :
    readMember member = .ok note ↔ member = dumpMember note ∧ GoodNote note := by
  obtain ⟨key, v⟩ := member
  obtain ⟨key', note⟩ := note
  simp only [readMember, bind_eq_ok, readText_eq_ok, readNote_eq_ok, Except.ok.injEq, dumpMember,
    GoodNote, Value.str.injEq, Prod.mk.injEq]
  constructor
  · rintro ⟨_, ⟨rfl, hkey⟩, _, ⟨rfl, hnote⟩, rfl, rfl⟩
    exact ⟨⟨rfl, rfl⟩, hkey, hnote⟩
  · rintro ⟨⟨rfl, rfl⟩, hkey, hnote⟩
    exact ⟨key, ⟨rfl, hkey⟩, note, ⟨rfl, hnote⟩, rfl, rfl⟩

theorem bounds_of_readIntensity {v : Value Float.Model} {x : Float.Model}
    (h : readIntensity v = .ok x) : ¬ oneFloat < x ∧ ¬ x < zeroFloat := by
  unfold readIntensity at h
  split at h
  · cases h
  · split at h
    · cases h
    · next hone =>
      split at h <;> cases h
      next hzero => exact ⟨hone, hzero⟩

theorem readIntensity_of_bounds [LawfulPydantic Float.Model] {x : Float.Model}
    (hone : ¬ oneFloat < x) (hzero : ¬ x < zeroFloat) : readIntensity (.float x) = .ok x := by
  simp only [readIntensity, LawfulPydantic.toFloat_float, if_neg hone, if_neg hzero]

end Fields

section Notes

variable [PyText]

omit [PyText] in
theorem reduceOption_map_some {α β : Type} (f : α → β) (l : List α) :
    (l.map fun a => some (f a)).reduceOption = l.map f := by
  induction l with
  | nil => exact List.reduceOption_nil
  | cons a l ih => rw [List.map_cons, List.reduceOption_cons_of_some, ih, List.map_cons]

/-- Strings are not coerced. -/
theorem coerce_dump (note : Note) : coerceBackgroundNoteValue note.dump = .ok (some note.dump) := by
  cases note with
  | text s => rfl
  | list l =>
    have hitems : (l.map Value.str).mapM coerceScalar = .ok (l.map some) :=
      mapM_map_ok (fun s => (rfl : coerceScalar (.str s) = .ok (some s))) l
    have hkept : (l.map some).reduceOption = l := by simpa using reduceOption_map_some id l
    simp only [coerceBackgroundNoteValue, Note.dump, hitems, bind, Except.bind, hkept]

theorem normalize_dump (notes : List (Str × Note)) :
    normalizeBackgroundNotes (.obj (notes.map dumpMember)) = .ok (.obj (notes.map dumpMember)) := by
  have hmember : ∀ note, normalizeMember (dumpMember note) = .ok (some (dumpMember note)) := by
    intro note
    rw [normalizeMember, dumpMember, coerce_dump]
    rfl
  rw [normalizeBackgroundNotes, mapM_map_ok hmember]
  exact congrArg (fun l => Except.ok (Value.obj l)) (reduceOption_map_some dumpMember notes)

variable [Pydantic Float.Model]

theorem good_of_readNotes {v : Value Float.Model} {notes : List (Str × Note)}
    (h : readNotes v = .ok notes) : ∀ note ∈ notes, GoodNote note := by
  obtain ⟨normalized, -, h⟩ := bind_eq_ok.mp h
  cases normalized with
  | obj members => exact ((mapM_eq_ok readMember_eq_ok).mp h).2
  | _ => cases h

theorem readNotes_of_good {notes : List (Str × Note)} (h : ∀ note ∈ notes, GoodNote note) :
    readNotes (.obj (notes.map dumpMember)) = .ok notes := by
  rw [readNotes, normalize_dump]
  exact (mapM_eq_ok readMember_eq_ok).mpr ⟨rfl, h⟩

end Notes

section Message

variable [PyText] [Pydantic Float.Model]

/-- A message that is accepted as it is. -/
structure GoodMessage (message : Str) : Prop where
  taken : Taken Float.Model message
  stripped : strip message = message
  long : 20 ≤ message.length
  mild : ∀ phrase ∈ forbiddenPhrases, ¬ text phrase <:+: PyText.lower message

omit [Pydantic Float.Model] in
/-- A phrase of the stripped message is one of the message. -/
theorem phrase_strip [LawfulPyText] {phrase value : Str}
    (h : phrase <:+: PyText.lower (strip value)) : phrase <:+: PyText.lower value := by
  obtain ⟨before, after, hbefore, hafter, hsplit⟩ := strip_split value
  have hlower : PyText.lower value = before ++ (PyText.lower (strip value) ++ after) := by
    conv_lhs => rw [hsplit]
    exact LawfulPyText.lower_between _ hbefore hafter
  rw [hlower]
  exact h.trans ⟨before, after, List.append_assoc _ _ _⟩

theorem good_of_readMessage [LawfulPyText] {v : Value Float.Model} {message : Str}
    (h : readMessage v = .ok message) : GoodMessage message := by
  obtain ⟨value, hvalue, h⟩ := bind_eq_ok.mp h
  split at h
  · cases h
  · next hnone =>
    rw [List.find?_eq_none] at hnone
    dsimp only at h
    split at h <;> cases h
    next hlong =>
    refine ⟨taken_strip (readText_eq_ok.mp hvalue).2, strip_strip value, by omega,
      fun phrase hp hin => hnone phrase hp ?_⟩
    simpa using phrase_strip hin

theorem readMessage_of_good {message : Str} (h : GoodMessage message) :
    readMessage (.str message) = .ok message := by
  have hnone : forbiddenPhrases.find?
      (fun phrase => text phrase <:+: PyText.lower message) = none := by
    rw [List.find?_eq_none]
    simpa using h.mild
  simp only [readMessage, readText_eq_ok.mpr ⟨rfl, h.taken⟩, bind, Except.bind, hnone, h.stripped]
  exact if_neg (Nat.not_lt.mpr h.long)

end Message

/-! ### The form of a turn -/

section Turn

variable [PyText] [Pydantic Float.Model]

/-- What the validators leave of a turn. -/
structure DialogueTurnV1.Good (turn : DialogueTurnV1) : Prop where
  message : GoodMessage turn.assistantMessage
  focus : turn.focus.length ≤ 3 ∧ ∀ s ∈ turn.focus, Taken Float.Model s
  questions : turn.questions.length ≤ 3 ∧ ∀ q ∈ turn.questions, GoodQuestion q
  notes : ∀ note ∈ turn.backgroundNotes, GoodNote note
  intensity : ¬ oneFloat < turn.emotionalIntensity ∧ ¬ turn.emotionalIntensity < zeroFloat
  flags : ∀ s ∈ turn.safetyFlags, Taken Float.Model s

omit [PyText] [Pydantic Float.Model] in
/-- A field that was read comes from its default or from a value. -/
theorem readField_eq_ok {α : Type} {members : List (Str × Value Float.Model)} {name : Str}
    {absent : Except FieldError α} {read : Value Float.Model → Except FieldError α} {a : α}
    (h : readField members name absent read = .ok a) :
    absent = .ok a ∨ ∃ v, read v = .ok a := by
  unfold readField at h
  split at h
  · exact .inl h
  · next v _ => exact .inr ⟨v, h⟩

omit [PyText] [Pydantic Float.Model] in
theorem half_bounds : ¬ oneFloat < halfFloat ∧ ¬ halfFloat < zeroFloat := by decide

/-- The validator accepts turns of this form alone. -/
theorem good_of_modelValidate [LawfulPyText] {payload : Value Float.Model} {turn : DialogueTurnV1}
    (h : modelValidate payload = .ok turn) : turn.Good := by
  cases payload with
  | obj members =>
    simp only [modelValidate] at h
    split at h
    · next message focus questions notes intensity flags hm hf hq hn hi hs _ =>
      cases h
      constructor
      · rcases readField_eq_ok hm with h | ⟨v, h⟩
        · cases h
        · exact good_of_readMessage h
      · rcases readField_eq_ok hf with h | ⟨v, h⟩
        · cases h
          simp
        · obtain ⟨-, hlen, htaken⟩ := readTexts_eq_ok.mp h
          exact ⟨hlen 3 rfl, htaken⟩
      · rcases readField_eq_ok hq with h | ⟨v, h⟩
        · cases h
          simp
        · exact good_of_readQuestions h
      · rcases readField_eq_ok hn with h | ⟨v, h⟩
        · cases h
          simp
        · exact good_of_readNotes h
      · rcases readField_eq_ok hi with h | ⟨v, h⟩
        · cases h
          exact half_bounds
        · exact bounds_of_readIntensity h
      · rcases readField_eq_ok hs with h | ⟨v, h⟩
        · cases h
          simp
        · exact (readTexts_eq_ok.mp h).2.2
    · cases h
  | _ => cases h

omit [PyText] [Pydantic Float.Model] in
theorem keys_modelDump (turn : DialogueTurnV1) : turn.modelDump.map Prod.fst = turnFields := rfl

/-- A turn of this form is accepted as it is, in whatever order its fields come. -/
theorem modelValidate_of_good [LawfulPydantic Float.Model] {turn : DialogueTurnV1} (h : turn.Good)
    {members : List (Str × Value Float.Model)} (hp : members.Perm turn.modelDump) :
    modelValidate (.obj members) = .ok turn := by
  have hkeys : (members.map Prod.fst).Perm turnFields := keys_modelDump turn ▸ hp.map Prod.fst
  have hnodup : (members.map Prod.fst).Nodup := hkeys.nodup_iff.mpr (by decide)
  have hfield : ∀ {α : Type} {name : Str} {v : Value Float.Model} (absent : Except FieldError α)
      (read : Value Float.Model → Except FieldError α), (name, v) ∈ turn.modelDump →
      readField members name absent read = read v := by
    intro α name v absent read hm
    rw [readField, lookup_of_mem hnodup (hp.mem_iff.mpr hm)]
  have hextra : (members.map Prod.fst).filter (· ∉ turnFields) = [] := by
    rw [List.filter_eq_nil_iff]
    intro name hname
    simpa using hkeys.subset hname
  have hmessage := readMessage_of_good h.message
  have hfocus : readTexts (F := Float.Model) (some 3) (.arr (turn.focus.map .str)) = .ok turn.focus :=
    readTexts_eq_ok.mpr ⟨rfl, by simpa using h.focus.1, h.focus.2⟩
  have hflags : readTexts (F := Float.Model) none (.arr (turn.safetyFlags.map .str)) =
      .ok turn.safetyFlags := readTexts_eq_ok.mpr ⟨rfl, by simp, h.flags⟩
  simp only [modelValidate]
  rw [hfield (v := .str turn.assistantMessage) _ _ (by simp [DialogueTurnV1.modelDump]),
    hfield (v := .arr (turn.focus.map .str)) _ _ (by simp [DialogueTurnV1.modelDump]),
    hfield (v := .arr (turn.questions.map .str)) _ _ (by simp [DialogueTurnV1.modelDump]),
    hfield (v := .obj (turn.backgroundNotes.map dumpMember)) _ _
      (by simp [DialogueTurnV1.modelDump]),
    hfield (v := .float turn.emotionalIntensity) _ _ (by simp [DialogueTurnV1.modelDump]),
    hfield (v := .arr (turn.safetyFlags.map .str)) _ _ (by simp [DialogueTurnV1.modelDump]),
    hmessage, hfocus, readQuestions_of_good h.questions.1 h.questions.2, readNotes_of_good h.notes,
    readIntensity_of_bounds h.intensity.1 h.intensity.2, hflags, hextra]

/-- A turn that was accepted is accepted again as it is dumped, and from the two parts that the
ingress stores, and is the same turn. -/
theorem modelValidate_stored [LawfulPyText] [LawfulPydantic Float.Model]
    {payload : Value Float.Model} {turn : DialogueTurnV1} (h : modelValidate payload = .ok turn) :
    modelValidate (.obj turn.modelDump) = .ok turn ∧
      ∀ members, members.Perm ((text "assistant_message", .str turn.stored.1) :: turn.stored.2) →
        modelValidate (.obj members) = .ok turn := by
  have hgood := good_of_modelValidate h
  exact ⟨modelValidate_of_good hgood (.refl _), fun members hp => modelValidate_of_good hgood hp⟩

end Turn

/-! ### Example -/

section Example

/-- Lower case of the basic Latin and Cyrillic letters. -/
def lowerCode (c : ℕ) : Str :=
  if 0x41 ≤ c ∧ c ≤ 0x5a ∨ 0x410 ≤ c ∧ c ≤ 0x42f then [c + 0x20]
  else if c = 0x401 then [0x451]
  else [c]

local instance lowerCodes : PyText := ⟨fun t => t.flatMap lowerCode, fun _ => text "0.5"⟩

theorem lowerCode_spaces {t : Str} (h : Spaces t) : t.flatMap lowerCode = t := by
  induction t with
  | nil => rfl
  | cons c t ih =>
    have hc := h c List.mem_cons_self
    have hcode : lowerCode c = [c] := by
      simp only [isSpace, Bool.or_eq_true, Bool.and_eq_true, decide_eq_true_eq, beq_iff_eq] at hc
      rw [lowerCode, if_neg (by omega), if_neg (by omega)]
    rw [List.flatMap_cons, hcode, ih fun d hd => h d (List.mem_cons_of_mem _ hd)]
    rfl

local instance lawfulCodes : LawfulPyText := ⟨by
  intro before after text hbefore hafter
  show (before ++ (text ++ after)).flatMap lowerCode = _
  rw [List.flatMap_append, List.flatMap_append, lowerCode_spaces hbefore, lowerCode_spaces hafter]
  rfl⟩

local instance conversions : Pydantic Float.Model where
  takesChar := fun _ => true
  toFloat v := match v with
    | .float x => some x
    | .int n => some (.ofInt n)
    | .bool b => some (.ofInt b.toNat)
    | _ => none

local instance lawfulConversions : LawfulPydantic Float.Model := ⟨fun _ => rfl⟩

/-- A reply with white space around its texts, a blank question, and notes of all kinds. -/
def reply : Value Float.Model := .obj
  [(text "questions", .arr [.str (text " Что было потом? "), .str (text "  ")]),
    (text "assistant_message", .str (text " Спасибо, что поделились этим сном.\n")),
    (text "background_notes", .obj [(text "dream_count", .int 1), (text "none", .null),
      (text "tags", .arr [.int 1, .str (text "мост"), .bool true, .null])]),
    (text "emotional_intensity", .float (Float.Model.ofScientific 7 (-1)))]

def replied : DialogueTurnV1 where
  assistantMessage := text "Спасибо, что поделились этим сном."
  focus := []
  questions := [text "Что было потом?"]
  backgroundNotes := [(text "dream_count", .text (text "1")),
    (text "tags", .list [text "1", text "мост", text "true"])]
  emotionalIntensity := Float.Model.ofScientific 7 (-1)
  safetyFlags := []

theorem modelValidate_reply : modelValidate (.obj replied.modelDump) = .ok replied ∧
    ∀ members, members.Perm ((text "assistant_message", .str replied.stored.1) ::
      replied.stored.2) → modelValidate (.obj members) = .ok replied :=
  modelValidate_stored (by decide +kernel : modelValidate reply = .ok replied)

end Example

end LiberNovus.Dialogue

import LiberNovus.Foundation.Json.Scanner
import LiberNovus.Foundation.Results

/-! The fields of a model that is validated from a JSON object, as pydantic reads them. Of a
field that is not valid only the first error is kept.

Proved: a text and a list of texts are read from what they are dumped to, and from nothing
else; and in a dictionary with distinct keys a field is found wherever it stands. -/

namespace LiberNovus.Json

open Results

/-- The errors of pydantic; `valueError` is raised by a validator of the model. -/
inductive FieldError where
  | missing
  | modelType
  | stringType
  | stringUnicode
  | listType
  | dictType
  | tooLong
  | floatType
  | greaterThanEqual
  | lessThanEqual
  | extraForbidden
  | valueError (message : String)
  deriving DecidableEq, Repr

/-- The conversions of pydantic: the characters that a string may hold, which need not include
lone surrogates, and the `float` that it makes of a value. -/
class Pydantic (F : Type) where
  takesChar : ℕ → Bool
  toFloat : Value F → Option F

/-- A `float` stays as it is. -/
class LawfulPydantic (F : Type) [Pydantic F] : Prop where
  toFloat_float (x : F) : Pydantic.toFloat (.float x) = some x

section Fields

variable {F : Type} [Pydantic F]

variable (F) in
/-- The text may be the value of a string. -/
def Taken (s : Str) : Prop := ∀ c ∈ s, Pydantic.takesChar F c = true

instance (s : Str) : Decidable (Taken F s) := inferInstanceAs (Decidable (∀ c ∈ _, _))

/-- `str`. -/
def readText : Value F → Except FieldError Str
  | .str s => if Taken F s then .ok s else .error .stringUnicode
  | _ => .error .stringType

/-- `list[str]`, with its `max_length`. -/
def readTexts (maxLength : Option ℕ) : Value F → Except FieldError (List Str)
  | .arr items =>
    if maxLength.any (· < items.length) then .error .tooLong else items.mapM readText
  | _ => .error .listType

omit [Pydantic F] in
/-- A field of an object; `absent` is its default, or the error of a required field. -/
def readField {α : Type} (members : List (Str × Value F)) (name : Str)
    (absent : Except FieldError α) (read : Value F → Except FieldError α) : Except FieldError α :=
  match members.lookup name with
  | none => absent
  | some v => read v

/-- The errors that are reported for a field. -/
def errorsOf {α : Type} (name : Str) : Except FieldError α → List (Str × FieldError)
  | .ok _ => []
  | .error e => [(name, e)]

/-! ### Reading and dumping -/

theorem readText_eq_ok {v : Value F} {s : Str} : readText v = .ok s ↔ v = .str s ∧ Taken F s := by
  unfold readText
  split
  · next t =>
    split
    · next h =>
      rw [Except.ok.injEq, Value.str.injEq]
      exact ⟨fun he => ⟨he, he ▸ h⟩, fun hs => hs.1⟩
    · next h =>
      constructor
      · intro he
        cases he
      · rintro ⟨he, hs⟩
        exact absurd (Value.str.inj he ▸ hs) h
  · next h =>
    constructor
    · intro he
      cases he
    · rintro ⟨rfl, -⟩
      exact absurd rfl (h s)

theorem readTexts_eq_ok {maxLength : Option ℕ} {v : Value F} {l : List Str} :
    readTexts maxLength v = .ok l ↔
      v = .arr (l.map .str) ∧ (∀ n ∈ maxLength, l.length ≤ n) ∧ ∀ s ∈ l, Taken F s := by
  have hread : ∀ (v : Value F) s, readText v = .ok s ↔ v = .str s ∧ Taken F s :=
    fun _ _ => readText_eq_ok
  have hlong : ∀ n, maxLength.any (· < n) = true ↔ ¬ ∀ m ∈ maxLength, n ≤ m := by
    intro n
    cases maxLength <;> simp
  unfold readTexts
  split
  · next items =>
    rw [Value.arr.injEq]
    split
    · next h =>
      refine iff_of_false (by simp) ?_
      rintro ⟨rfl, hn, -⟩
      rw [List.length_map] at h
      exact (hlong _).mp h hn
    · next h =>
      rw [hlong, not_not] at h
      rw [mapM_eq_ok hread]
      constructor
      · rintro ⟨rfl, hl⟩
        exact ⟨rfl, by simpa using h, hl⟩
      · exact fun hl => ⟨hl.1, hl.2.2⟩
  · next h =>
    constructor
    · intro he
      cases he
    · rintro ⟨rfl, -⟩
      exact absurd rfl (h _)

/-- A member of a dictionary is found by its key. -/
theorem lookup_of_mem {β : Type} {members : List (Str × β)} (hk : (members.map Prod.fst).Nodup)
    {name : Str} {v : β} (hm : (name, v) ∈ members) : members.lookup name = some v := by
  induction members with
  | nil => cases hm
  | cons m members ih =>
    obtain ⟨hnew, hk⟩ := List.nodup_cons.mp hk
    rcases List.mem_cons.mp hm with rfl | hm
    · simp
    · have hne : name ≠ m.1 := by
        rintro rfl
        exact hnew (List.mem_map.mpr ⟨_, hm, rfl⟩)
      rw [List.lookup_cons, beq_eq_false_iff_ne.mpr hne]
      exact ih hk hm

end Fields

end LiberNovus.Json

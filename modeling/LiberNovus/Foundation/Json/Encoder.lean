import LiberNovus.Foundation.Json.Grammar
import Mathlib.Data.List.Forall2
import Mathlib.Data.Nat.Digits.Lemmas
import Mathlib.Tactic.IntervalCases

/-! `json.dumps(value, ensure_ascii=False)`. Proved: what it writes is the text of the value
in the grammar, hence it is read back as that value with as many levels as the value nests. Of
the floating-point numbers it is assumed that their `repr` is read back. -/

namespace LiberNovus.Json

/-! ### Text of strings and integers -/

/-- A hexadecimal digit in lower case. -/
def hexChar (d : ℕ) : ℕ := if d < 10 then 0x30 + d else 0x57 + d

/-- `py_encode_basestring`, for one character. -/
def encodeChar (c : ℕ) : Str :=
  if c = backslash then [backslash, backslash]
  else if c = quote then [backslash, quote]
  else if c = 0x08 then [backslash, 0x62]
  else if c = 0x0c then [backslash, 0x66]
  else if c = 0x0a then [backslash, 0x6e]
  else if c = 0x0d then [backslash, 0x72]
  else if c = 0x09 then [backslash, 0x74]
  else if c < 0x20 then [backslash, 0x75, 0x30, 0x30, hexChar (c / 16), hexChar (c % 16)]
  else [c]

def encodeString (s : Str) : Str := quote :: (s.flatMap encodeChar ++ [quote])

/-- The decimal digits of a number. -/
def natText (n : ℕ) : Str :=
  if n = 0 then [zero] else (Nat.digits 10 n).reverse.map (· + 0x30)

/-- `int.__repr__`, or its `ValueError`. -/
def encodeInt (n : ℤ) : Option Str :=
  if maxStrDigits < (natText n.natAbs).length then none
  else some ((if n < 0 then [minus] else []) ++ natText n.natAbs)

/-- The piece of a string that `encodeChar` writes. -/
def pieceOf (c : ℕ) : Piece :=
  if c < 0x20 ∧ c ∉ [0x08, 0x0c, 0x0a, 0x0d, 0x09] then .coded c else .plain c

theorem token_encodeChar (c : ℕ) : Token (encodeChar c) (pieceOf c) := by
  rcases Nat.lt_or_ge c 0x20 with hc | hc
  · interval_cases c <;> first | exact .escape rfl | exact .coded rfl
  · have hp : pieceOf c = .plain c := if_neg fun h => absurd h.1 (by omega)
    rw [hp]
    by_cases hb : c = backslash
    · subst hb
      exact .escape rfl
    by_cases hq : c = quote
    · subst hq
      exact .escape rfl
    have he : encodeChar c = [c] := by
      unfold encodeChar
      rw [if_neg hb, if_neg hq]
      split_ifs <;> first | rfl | omega
    rw [he]
    exact .plain hq hb hc

theorem tokens_encode (s : Str) : Tokens (s.flatMap encodeChar) (s.map pieceOf) := by
  induction s with
  | nil => exact .nil
  | cons c s ih => exact .cons (token_encodeChar c) ih

/-- Only surrogates are joined, and those are not escaped. -/
theorem joinSurrogates_pieceOf (s : Str) : joinSurrogates (s.map pieceOf) = s := by
  induction s with
  | nil => rfl
  | cons c s ih =>
    rw [List.map_cons, pieceOf]
    split
    · next hc =>
      rw [joinSurrogates.eq_def]
      split
      · next c' d rest h =>
        obtain ⟨h, hrest⟩ := List.cons_eq_cons.mp h
        obtain rfl := Piece.coded.inj h
        rw [if_neg (by omega), ← hrest, ih]
      · next c' rest _ h =>
        obtain ⟨h, hrest⟩ := List.cons_eq_cons.mp h
        obtain rfl := Piece.coded.inj h
        rw [← hrest, ih]
      · next h => exact absurd (List.cons_eq_cons.mp h).1 (by simp)
      · next h => cases h
    · rw [joinSurrogates, ih]

theorem reads_encodeString {F : Type} [PyFloat F] (d : ℕ) (s : Str) :
    Reads d (encodeString s) (.value (.str s : Value F)) := by
  have h := Reads.string (F := F) (d := d) (tokens_encode s)
  rwa [joinSurrogates_pieceOf] at h

theorem digits_natText {n : ℕ} (hn : n ≠ 0) : Digits (natText n) := by
  intro c hc
  rw [natText, if_neg hn, List.mem_map] at hc
  obtain ⟨d, hd, rfl⟩ := hc
  have := Nat.digits_lt_base (by norm_num) (List.mem_reverse.mp hd)
  simp only [isDigit, Bool.and_eq_true, decide_eq_true_eq]
  omega

theorem intText_natText (n : ℕ) : IntText (natText n) := by
  by_cases hn : n = 0
  · subst hn
    exact .zero
  have hd := digits_natText hn
  obtain ⟨d, ds, hds⟩ := List.exists_cons_of_ne_nil
    (List.reverse_ne_nil_iff.mpr (Nat.digits_ne_nil_iff_ne_zero.mpr hn))
  have hlast : d ≠ 0 := by
    have hne := Nat.digits_ne_nil_iff_ne_zero (b := 10).mpr hn
    have h : (Nat.digits 10 n).getLast? = some d := by rw [List.getLast?_eq_head?_reverse, hds]; rfl
    rw [List.getLast?_eq_some_getLast hne] at h
    exact Option.some.inj h ▸ Nat.getLast_digit_ne_zero 10 hn
  rw [natText, if_neg hn, hds, List.map_cons] at hd ⊢
  refine .digits (hd _ List.mem_cons_self) ?_ fun c hc => hd c (List.mem_cons_of_mem _ hc)
  simpa [zero] using hlast

theorem natOfText_natText (n : ℕ) : natOfText (natText n) = n := by
  by_cases hn : n = 0
  · subst hn
    rfl
  · rw [natOfText, natText, if_neg hn, ← List.map_reverse, List.reverse_reverse,
      List.map_map]
    have hid : ((fun c => c - 0x30) ∘ fun d => d + 0x30) = (id : ℕ → ℕ) := by
      funext d
      simp
    rw [hid, List.map_id, Nat.ofDigits_digits]

/-! ### Text of values -/

/-- The `repr` of a number is a literal, or the word, of that number. -/
class LawfulPyFloat (F : Type) [PyFloat F] : Prop where
  scalar_repr (x : F) : Scalar (PyFloat.repr x) (.float x)

instance : LawfulPyFloat Constant where
  scalar_repr x := by cases x <;> exact .keyword (by simp [keywords, PyFloat.repr, PyFloat.ofConstant])

section Values

variable {F : Type}

/-- `separator.join(parts)` between brackets, with `", "` as the separator. -/
def enclose (opening closing : ℕ) (parts : List Str) : Str :=
  opening :: ([comma, 0x20].intercalate parts ++ [closing])

mutual

/-- `json.dumps(value, ensure_ascii=False)`; it fails for an integer of too many digits. -/
def dumps [PyFloat F] : Value F → Option Str
  | .null => some (text "null")
  | .bool b => some (if b then text "true" else text "false")
  | .int n => encodeInt n
  | .float x => some (PyFloat.repr x)
  | .str s => some (encodeString s)
  | .arr items => do some (enclose openBracket closeBracket (← dumpsItems items))
  | .obj members => do some (enclose openBrace closeBrace (← dumpsMembers members))

def dumpsItems [PyFloat F] : List (Value F) → Option (List Str)
  | [] => some []
  | v :: items => do some ((← dumps v) :: (← dumpsItems items))

def dumpsMembers [PyFloat F] : List (Str × Value F) → Option (List Str)
  | [] => some []
  | (name, v) :: members => do
    some ((encodeString name ++ colon :: 0x20 :: (← dumps v)) :: (← dumpsMembers members))

end

/-- Induction over the items and the members of a value. -/
@[elab_as_elim]
theorem Value.induct {P : Value F → Prop} (null : P .null) (bool : ∀ b, P (.bool b))
    (int : ∀ n, P (.int n)) (float : ∀ x, P (.float x)) (str : ∀ s, P (.str s))
    (arr : ∀ items, (∀ v ∈ items, P v) → P (.arr items))
    (obj : ∀ members, (∀ m ∈ members, P m.2) → P (.obj members)) : ∀ v, P v
  | .null => null
  | .bool b => bool b
  | .int n => int n
  | .float x => float x
  | .str s => str s
  | .arr items => arr items fun v hv =>
    have := List.sizeOf_lt_of_mem hv
    Value.induct null bool int float str arr obj v
  | .obj members => obj members fun m hm =>
    have := List.sizeOf_lt_of_mem hm
    have : sizeOf m.2 < sizeOf m := by cases m; simp
    Value.induct null bool int float str arr obj m.2

/-- The value itself, its items and the values of its members, at every depth. -/
inductive Value.Within : Value F → Value F → Prop
  | self (v : Value F) : Within v v
  | item {v w : Value F} {items : List (Value F)} (hv : v ∈ items) (h : Within w v) :
      Within w (.arr items)
  | member {m : Str × Value F} {w : Value F} {members : List (Str × Value F)} (hm : m ∈ members)
      (h : Within w m.2) : Within w (.obj members)

/-- No object within the value has a name twice. -/
def Value.Distinct (v : Value F) : Prop :=
  ∀ members, Value.Within (.obj members) v → (members.map Prod.fst).Nodup

theorem Value.Distinct.item {v : Value F} {items : List (Value F)}
    (h : Value.Distinct (.arr items)) (hv : v ∈ items) : v.Distinct :=
  fun members hm => h members (.item hv hm)

theorem Value.Distinct.member {m : Str × Value F} {members : List (Str × Value F)}
    (h : Value.Distinct (.obj members)) (hm : m ∈ members) : m.2.Distinct :=
  fun members hm' => h members (.member hm hm')

structure Dict (F : Type) where
  members : List (Str × Value F)
  distinct : Value.Distinct (.obj members)

/-- Members with different names are kept as they are. -/
theorem toDict_eq_self {members : List (Str × Value F)} (h : (members.map Prod.fst).Nodup) :
    toDict members = members := by
  induction members using List.reverseRecOn with
  | nil => rfl
  | append_singleton members m ih =>
    rw [List.map_append, List.nodup_append] at h
    have hm : m.1 ∉ members.map Prod.fst := fun hm => h.2.2 _ hm m.1 (by simp) rfl
    have hinit := ih h.1
    rw [toDict] at hinit ⊢
    rw [List.foldl_append, List.foldl_cons, List.foldl_nil, hinit, setItem, if_neg hm]

variable [PyFloat F]

theorem dumpsItems_eq_some {items : List (Value F)} {parts : List Str} :
    dumpsItems items = some parts ↔ List.Forall₂ (fun v u => dumps v = some u) items parts := by
  induction items generalizing parts with
  | nil => simp [dumpsItems, eq_comm]
  | cons v items ih =>
    simp only [dumpsItems, Option.bind_eq_bind, Option.bind_eq_some_iff, ih, Option.some.injEq,
      List.forall₂_cons_left_iff]
    exact ⟨fun ⟨u, hu, us, hus, h⟩ => ⟨u, us, hu, hus, h.symm⟩,
      fun ⟨u, us, hu, hus, h⟩ => ⟨u, hu, us, hus, h.symm⟩⟩

/-- The text of a member. -/
def DumpsMember (m : Str × Value F) (part : Str) : Prop :=
  ∃ u, dumps m.2 = some u ∧ part = encodeString m.1 ++ colon :: 0x20 :: u

theorem dumpsMembers_eq_some {members : List (Str × Value F)} {parts : List Str} :
    dumpsMembers members = some parts ↔ List.Forall₂ DumpsMember members parts := by
  induction members generalizing parts with
  | nil => simp [dumpsMembers, eq_comm]
  | cons m members ih =>
    obtain ⟨name, v⟩ := m
    simp only [dumpsMembers, Option.bind_eq_bind, Option.bind_eq_some_iff, ih, Option.some.injEq,
      List.forall₂_cons_left_iff, DumpsMember]
    constructor
    · rintro ⟨u, hu, us, hus, rfl⟩
      exact ⟨_, us, ⟨u, hu, rfl⟩, hus, rfl⟩
    · rintro ⟨_, us, ⟨u, hu, rfl⟩, hus, rfl⟩
      exact ⟨u, hu, us, hus, rfl⟩

/-! ### The text is read back -/

theorem blank_space : Blank [0x20] := by simp [Blank, isWs]

/-- The parts of an array, with the separator between them, are its items. -/
theorem reads_items {d : ℕ} {items : List (Value F)} {parts : List Str} (hne : items ≠ [])
    (h : List.Forall₂ (fun v u => Reads d u (.value v)) items parts) :
    Reads d ([comma, 0x20].intercalate parts ++ [closeBracket]) (.items items) := by
  induction h with
  | nil => exact absurd rfl hne
  | @cons v u items parts hu hrest ih =>
    cases hrest with
    | nil =>
      rw [List.intercalate_singleton]
      exact .lastItem hu blank_nil
    | @cons v' u' items parts hu' hrest =>
      have ht := ih (List.cons_ne_nil _ _)
      rw [List.intercalate_cons_cons, List.append_assoc, List.append_assoc]
      exact .item hu blank_nil blank_space ht

/-- The parts of an object, with the separator between them, are its members. -/
theorem reads_members {d : ℕ} {members : List (Str × Value F)} {parts : List Str}
    (hne : members ≠ []) (h : List.Forall₂ (fun m part => ∃ u, Reads d u (.value m.2) ∧
      part = encodeString m.1 ++ colon :: 0x20 :: u) members parts) :
    Reads d ([comma, 0x20].intercalate parts ++ [closeBrace]) (.members members) := by
  induction h with
  | nil => exact absurd rfl hne
  | @cons m part members parts hu hrest ih =>
    obtain ⟨u, hu, rfl⟩ := hu
    obtain ⟨name, v⟩ := m
    have hname := tokens_encode name
    cases hrest with
    | nil =>
      have h := Reads.lastMember hname blank_nil blank_space hu blank_nil
      rw [joinSurrogates_pieceOf] at h
      simpa [encodeString] using h
    | @cons m' part' members parts hu' hrest =>
      have ht := ih (List.cons_ne_nil _ _)
      have h := Reads.member hname blank_nil blank_space hu blank_nil blank_space ht
      rw [joinSurrogates_pieceOf] at h
      rw [List.intercalate_cons_cons]
      simpa [encodeString] using h

theorem scalar_encodeInt {n : ℤ} {u : Str} (h : encodeInt n = some u) :
    Scalar u (.int n : Value F) := by
  rw [encodeInt] at h
  split at h
  · cases h
  · next hlen =>
    cases h
    have hv : ofNumber (F := F) (decide (n < 0)) (natText n.natAbs) [] [] = .ok (.int n) := by
      rw [ofNumber, if_neg (by simp), if_neg hlen, natOfText_natText]
      split <;> congr <;> simp only [decide_eq_true_eq] at * <;> omega
    have h := Scalar.number (intText_natText n.natAbs) .none .none hv
    simpa using h

variable [LawfulPyFloat F]

/-- What is written is the text of the value. -/
theorem reads_dumps {d : ℕ} {v : Value F} {u : Str} (h : dumps v = some u) (hv : v.Distinct)
    (hd : v.depth ≤ d) : Reads d u (.value v) := by
  induction v using Value.induct generalizing d u with
  | null =>
    cases h
    exact .scalar (.keyword (by simp [keywords]))
  | bool b =>
    cases h
    cases b <;> exact .scalar (.keyword (by simp [keywords]))
  | int n => exact .scalar (scalar_encodeInt h)
  | float x =>
    cases h
    exact .scalar (LawfulPyFloat.scalar_repr x)
  | str s =>
    cases h
    exact reads_encodeString d s
  | arr items ih =>
    rw [dumps, Option.bind_eq_bind, Option.bind_eq_some_iff] at h
    obtain ⟨parts, hparts, h⟩ := h
    cases h
    rw [dumpsItems_eq_some] at hparts
    obtain ⟨d, rfl⟩ := Nat.exists_eq_add_of_le' (Nat.le_of_add_left_le hd)
    have hdepth := depthItems_le_iff.mp (Nat.le_of_succ_le_succ hd)
    have hitems := List.Forall₂.imp (S := fun v u => Reads d u (.value v))
      (fun v u hvu => ih v hvu.1 hvu.2 (hv.item hvu.1) (hdepth v hvu.1))
      ((List.forall₂_and_left _ _).mpr ⟨fun v hv => hv, hparts⟩)
    by_cases hne : items = []
    · subst hne
      cases hparts
      exact .emptyArray blank_nil
    · have h := Reads.array blank_nil (reads_items hne hitems)
      exact h
  | obj members ih =>
    rw [dumps, Option.bind_eq_bind, Option.bind_eq_some_iff] at h
    obtain ⟨parts, hparts, h⟩ := h
    cases h
    rw [dumpsMembers_eq_some] at hparts
    obtain ⟨d, rfl⟩ := Nat.exists_eq_add_of_le' (Nat.le_of_add_left_le hd)
    have hdepth := depthMembers_le_iff.mp (Nat.le_of_succ_le_succ hd)
    have hmembers := List.Forall₂.imp (S := fun m part => ∃ u, Reads d u (.value m.2) ∧
        part = encodeString m.1 ++ colon :: 0x20 :: u)
      (fun m part ⟨hm, u, hu, hpart⟩ => ⟨u, ih m hm hu (hv.member hm) (hdepth m hm), hpart⟩)
      ((List.forall₂_and_left _ _).mpr ⟨fun m hm => hm, hparts⟩)
    by_cases hne : members = []
    · subst hne
      cases hparts
      exact .emptyObject blank_nil
    · have h := Reads.object blank_nil (reads_members hne hmembers)
      rwa [toDict_eq_self (hv members (.self _))] at h

end Values

end LiberNovus.Json

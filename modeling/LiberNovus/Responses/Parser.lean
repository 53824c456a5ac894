import LiberNovus.Foundation.Json.Grammar
import LiberNovus.Foundation.Search
import Mathlib.Data.List.DropRight

/-! Extraction of the JSON object from a reply of the model: the whole reply, a fenced block,
or the first position from which an object can be decoded. The first two go by the first and
the last character alone.

Proved: every fenced block is a part of the reply, between two fences; and a text in braces is
parsed exactly when it is an object that nests no deeper than the stack allows. -/

namespace LiberNovus.Responses

open Json Search

/-- `ResponseParseError`, the `ValueError` of a number of too many digits, and
`RecursionError`. -/
inductive Failure where
  | parse
  | digits
  | recursion
  deriving DecidableEq, Repr

abbrev fence : Str := [backtick, backtick, backtick]

/-- `str.isspace` of a code point. -/
def isSpace (c : ℕ) : Bool :=
  (0x09 ≤ c && c ≤ 0x0d) || (0x1c ≤ c && c ≤ 0x20) || c == 0x85 || c == 0xa0 || c == 0x1680 ||
    (0x2000 ≤ c && c ≤ 0x200a) || c == 0x2028 || c == 0x2029 || c == 0x202f || c == 0x205f ||
    c == 0x3000

def strip (t : Str) : Str := (t.dropWhile isSpace).rdropWhile isSpace

/-- `text.startswith("\x7b") and text.endswith("\x7d")`. -/
def braced (t : Str) : Bool := t.head? = some openBrace && t.getLast? = some closeBrace

/-! ### Fenced blocks -/

/-- `(?:json)?`; without regard to case, `ſ` is an s as well. -/
def skipJson : Str → Str
  | c₁ :: c₂ :: c₃ :: c₄ :: t =>
    if c₁ ∈ [0x6a, 0x4a] ∧ c₂ ∈ [0x73, 0x53, 0x17f] ∧ c₃ ∈ [0x6f, 0x4f] ∧ c₄ ∈ [0x6e, 0x4e] then t
    else c₁ :: c₂ :: c₃ :: c₄ :: t
  | t => t

/-- A match of `_FENCED_JSON_PATTERN` at the start of the text: its body and the rest. The
white space around the body belongs to the pattern. -/
def matchFenced (t : Str) : Option (Str × Str) :=
  if fence.isPrefixOf t then
    (cut fence ((skipJson (t.drop fence.length)).dropWhile isSpace)).map fun (body, rest) =>
      (body.rdropWhile isSpace, rest)
  else none

/-- The bodies that `finditer` finds, with a bound on its steps. -/
def finditer : ℕ → Str → List Str
  | 0, _ => []
  | n + 1, t =>
    match matchFenced t with
    | some (body, rest) => body :: finditer n rest
    | none =>
      match t with
      | [] => []
      | _ :: t => finditer n t

/-- The fenced blocks of a reply, stripped. -/
def fencedBodies (raw : Str) : List Str := (finditer (raw.length + 1) raw).map strip

/-! ### Extraction -/

section Extraction

/-- How many arrays and objects the decoder may enter one within the other. `parse_json` calls
it through `json.loads` and `decode`, so that less of the stack is left than in `extract_json`. -/
structure Stack where
  extraction : ℕ
  parsing : ℕ
  deeper : parsing ≤ extraction

/-- What the limit of 1000 frames leaves to a caller some fifty frames deep. -/
def Stack.typical : Stack := ⟨950, 948, by decide⟩

variable (F : Type) [PyFloat F] (levels : ℕ)

/-- The first object that can be decoded, brace by brace. -/
def firstDecoded : Str → Except Failure Str
  | [] => .error .parse
  | c :: t =>
    if c = openBrace then
      match rawDecode (F := F) levels (c :: t) with
      | .ok (_, rest) => .ok ((c :: t).take ((c :: t).length - rest.length))
      | .error .decode => firstDecoded t
      | .error .digits => .error .digits
      | .error .recursion => .error .recursion
    else firstDecoded t

def extractJson (raw : Str) : Except Failure Str :=
  if braced (strip raw) then .ok (strip raw)
  else
    match (fencedBodies raw).find? braced with
    | some candidate => .ok candidate
    | none => firstDecoded F levels raw

variable {F}

/-- `parse_json`: the members of the dictionary. -/
def parseJson (t : Str) : Except Failure (List (Str × Value F)) :=
  match loads levels t with
  | .ok (.obj members) => .ok members
  | .ok _ => .error .parse
  | .error .decode => .error .parse
  | .error .digits => .error .digits
  | .error .recursion => .error .recursion

/-- `parse_json(extract_json(raw))`. -/
def parsedReply (stack : Stack) (raw : Str) : Except Failure (List (Str × Value F)) := do
  parseJson stack.parsing (← extractJson F stack.extraction raw)

end Extraction

/-! ### What is extracted -/

def Spaces (t : Str) : Prop := ∀ c ∈ t, isSpace c = true

theorem strip_split (t : Str) : ∃ w w', Spaces w ∧ Spaces w' ∧ t = w ++ (strip t ++ w') := by
  refine ⟨t.takeWhile isSpace, (t.dropWhile isSpace).rtakeWhile isSpace,
    fun _ => List.mem_takeWhile_imp, fun _ => List.mem_rtakeWhile_imp, ?_⟩
  rw [strip, List.rdropWhile_append_rtakeWhile, List.takeWhile_append_dropWhile]

theorem strip_inside (t : Str) : strip t <:+: t := by
  obtain ⟨w, w', -, -, ht⟩ := strip_split t
  exact ⟨w, w', by rw [List.append_assoc, ← ht]⟩

theorem braced_iff {t : Str} :
    braced t = true ↔ t.head? = some openBrace ∧ t.getLast? = some closeBrace := by
  simp [braced]

/-- What may stand between a fence and the body of its block. -/
def Glue (t : Str) : Prop :=
  ∀ c ∈ t, isSpace c = true ∨ c ∈ [0x6a, 0x4a, 0x73, 0x53, 0x17f, 0x6f, 0x4f, 0x6e, 0x4e]

theorem Spaces.glue {t : Str} (h : Spaces t) : Glue t := fun c hc => .inl (h c hc)

theorem Glue.append {t r : Str} (ht : Glue t) (hr : Glue r) : Glue (t ++ r) := by
  intro c hc
  rcases List.mem_append.mp hc with hc | hc
  · exact ht c hc
  · exact hr c hc

theorem skipJson_split (t : Str) : ∃ g, Glue g ∧ t = g ++ skipJson t := by
  unfold skipJson
  split
  · next c₁ c₂ c₃ c₄ t =>
    split
    · next h =>
      refine ⟨[c₁, c₂, c₃, c₄], ?_, rfl⟩
      simp only [List.mem_cons, List.not_mem_nil, or_false] at h
      intro c hc
      simp only [List.mem_cons, List.not_mem_nil, or_false] at hc ⊢
      rcases hc with rfl | rfl | rfl | rfl <;> omega
    · exact ⟨[], by simp [Glue], rfl⟩
  · exact ⟨[], by simp [Glue], rfl⟩

/-- A block: a fence, the body with white space around it, and the next fence. -/
theorem matchFenced_eq_some {t body rest : Str} (h : matchFenced t = some (body, rest)) :
    ∃ g d, Glue g ∧ t = fence ++ (g ++ (body ++ (d ++ (fence ++ rest)))) ∧
      ¬ fence <:+: body := by
  rw [matchFenced] at h
  split at h
  · next hp =>
    obtain ⟨⟨before, rest'⟩, hcut, h⟩ := Option.map_eq_some_iff.mp h
    cases h
    have hsplit := cut_eq_some hcut
    have hno := not_infix_of_cut (by simp) hcut
    obtain ⟨g, hg, hskip⟩ := skipJson_split (t.drop fence.length)
    set t' := skipJson (t.drop fence.length)
    have hw : Spaces (t'.takeWhile isSpace) := fun _ => List.mem_takeWhile_imp
    refine ⟨g ++ t'.takeWhile isSpace, before.rtakeWhile isSpace, hg.append hw.glue, ?_,
      fun hin => hno (hin.trans (List.rdropWhile_prefix _ _).isInfix)⟩
    have hbefore : before.rdropWhile isSpace ++ (before.rtakeWhile isSpace ++ (fence ++ rest)) =
        t'.dropWhile isSpace := by
      rw [← List.append_assoc, List.rdropWhile_append_rtakeWhile, ← hsplit]
    rw [hbefore, List.append_assoc, List.takeWhile_append_dropWhile, ← hskip]
    exact prefix_split hp
  · cases h

theorem mem_finditer {n : ℕ} {t body : Str} (h : body ∈ finditer n t) :
    ∃ a r rest, t = a ++ r ∧ matchFenced r = some (body, rest) := by
  induction n generalizing t with
  | zero => cases h
  | succ n ih =>
    rw [finditer.eq_def] at h
    dsimp only at h
    split at h
    · next body' rest hm =>
      rcases List.mem_cons.mp h with rfl | h
      · exact ⟨[], t, rest, rfl, hm⟩
      · obtain ⟨g, d, -, rfl, -⟩ := matchFenced_eq_some hm
        obtain ⟨a, r, rest', rfl, hm'⟩ := ih h
        exact ⟨fence ++ (g ++ (body' ++ (d ++ (fence ++ a)))), r, rest', by simp, hm'⟩
    · split at h
      · cases h
      · next c t' _ =>
        obtain ⟨a, r, rest, rfl, hm⟩ := ih h
        exact ⟨c :: a, r, rest, rfl, hm⟩

/-- A fenced block within the reply. -/
theorem mem_fencedBodies {raw c : Str} (h : c ∈ fencedBodies raw) :
    ∃ a g b, Glue g ∧ raw = a ++ (fence ++ (g ++ (c ++ b))) ∧ fence <:+: b ∧ ¬ fence <:+: c := by
  obtain ⟨body, hbody, rfl⟩ := List.mem_map.mp h
  obtain ⟨a, r, rest, rfl, hm⟩ := mem_finditer hbody
  obtain ⟨g, d, hg, rfl, hno⟩ := matchFenced_eq_some hm
  obtain ⟨w, w', hw, -, hbody⟩ := strip_split body
  refine ⟨a, g ++ w, w' ++ (d ++ (fence ++ rest)), hg.append hw.glue, ?_,
    ⟨w' ++ d, rest, by simp⟩, fun hin => hno (hin.trans (strip_inside body))⟩
  nth_rewrite 1 [hbody]
  simp

theorem infix_of_mem_fencedBodies {raw c : Str} (h : c ∈ fencedBodies raw) : c <:+: raw := by
  obtain ⟨a, g, b, -, rfl, -⟩ := mem_fencedBodies h
  exact ⟨a ++ (fence ++ g), b, by simp⟩

section Parsing

variable {F : Type} [PyFloat F] {levels : ℕ}

/-- The text of one object, and nothing else; it nests no deeper. -/
def IsObject (F : Type) [PyFloat F] (levels : ℕ) (t : Str) : Prop :=
  ∃ members, Reads levels t (.value (.obj members : Value F))

theorem not_blank_closeBrace {u w : Str} (hw : Blank w) (h : (u ++ w).getLast? = some closeBrace) :
    w = [] := by
  by_contra hne
  rw [List.getLast?_append_of_ne_nil _ hne] at h
  exact absurd (hw _ (List.mem_of_getLast? h)) (by decide)

theorem parseJson_eq_ok {t : Str} {members : List (Str × Value F)} :
    parseJson levels t = .ok members ↔ loads levels t = .ok (.obj members) := by
  rw [parseJson]
  split <;> simp_all

/-- A text in braces is parsed when it is an object. -/
theorem parseJson_braced {t : Str} (ht : braced t = true) {members : List (Str × Value F)} :
    parseJson levels t = .ok members ↔ Reads levels t (.value (.obj members)) := by
  obtain ⟨hhead, hlast⟩ := braced_iff.mp ht
  obtain ⟨t, rfl⟩ := List.head?_eq_some_iff.mp hhead
  rw [parseJson_eq_ok, loads_brace_iff]
  constructor
  · rintro ⟨u, w, hu, hw, heq⟩
    rw [heq] at hlast
    rw [heq, not_blank_closeBrace hw hlast, List.append_nil]
    exact hu
  · intro hu
    exact ⟨openBrace :: t, [], hu, blank_nil, by simp⟩

theorem parseJson_isObject {t : Str} (ht : braced t = true) :
    (∃ members : List (Str × Value F), parseJson levels t = .ok members) ↔ IsObject F levels t :=
  exists_congr fun _ => parseJson_braced ht

/-- The text of an object is parsed unless it nests too deep. -/
theorem parseJson_object {d : ℕ} {t : Str} {members : List (Str × Value F)}
    (ht : t.head? = some openBrace) (h : Reads d t (.value (.obj members : Value F))) :
    (∃ members : List (Str × Value F), parseJson levels t = .ok members) ↔ IsObject F levels t := by
  obtain ⟨t, rfl⟩ := List.head?_eq_some_iff.mp ht
  refine exists_congr fun members' => ?_
  rw [parseJson_eq_ok, loads_brace_iff]
  constructor
  · rintro ⟨u, w, hu, -, heq⟩
    have heq' : openBrace :: t ++ [] = u ++ w := by rw [List.append_nil, heq]
    obtain ⟨rfl, -⟩ := h.unique hu ht heq'
    exact hu
  · intro hu
    exact ⟨openBrace :: t, [], hu, blank_nil, by simp⟩

end Parsing

end LiberNovus.Responses

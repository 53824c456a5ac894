import Mathlib.Data.List.DropRight

/-! Text as a list of characters: white space, words and stripping, as the methods of
Python's `str` define them. -/

namespace LiberNovus.Text

/-- What is asked of the characters of a text is decided by going through the text, and not through
all the characters that there are. -/
instance (priority := 1100) decidableForallMem {p : Char → Prop} [DecidablePred p]
    (text : List Char) : Decidable (∀ c ∈ text, p c) := List.decidableBAll p text

/-- Texts are compared by their characters. -/
instance lawfulBEqText : LawfulBEq (List Char) := inferInstance

/-- `str.isspace` of a character. -/
def isSpace (c : Char) : Bool :=
  let n := c.toNat
  (0x09 ≤ n && n ≤ 0x0d) || (0x1c ≤ n && n ≤ 0x20) || n == 0x85 || n == 0xa0 || n == 0x1680 ||
    (0x2000 ≤ n && n ≤ 0x200a) || n == 0x2028 || n == 0x2029 || n == 0x202f || n == 0x205f ||
    n == 0x3000

def strip (text : List Char) : List Char := (text.dropWhile isSpace).rdropWhile isSpace

/-- `text.split()`: the runs of characters that are not white space. -/
def words (text : List Char) : List (List Char) := (text.splitOnP isSpace).filter (· ≠ [])

def join (sep : List Char) (parts : List (List Char)) : List Char := sep.intercalate parts

/-- `" ".join(text.split())`. -/
def squeeze (text : List Char) : List Char := join [' '] (words text)

section Trim

variable {α : Type*} {p : α → Bool} {t w w' : List α}

/-- Nothing is stripped from text whose ends are kept. -/
theorem trim_eq_self (hfirst : ∀ c ∈ t.head?, p c = false) (hlast : ∀ c ∈ t.getLast?, p c = false) :
    (t.dropWhile p).rdropWhile p = t := by
  have hdrop : t.dropWhile p = t := by
    rw [List.dropWhile_eq_self_iff]
    intro hlen
    rw [hfirst _ (by rw [List.head?_eq_getElem?]; exact List.getElem?_eq_getElem hlen)]
    decide
  rw [hdrop, List.rdropWhile_eq_self_iff]
  intro hne
  rw [hlast _ (List.getLast?_eq_some_getLast hne)]
  decide

/-- What stands around such text is stripped. -/
theorem trim_append (hw : ∀ c ∈ w, p c = true) (hw' : ∀ c ∈ w', p c = true)
    (hfirst : ∀ c ∈ t.head?, p c = false) (hlast : ∀ c ∈ t.getLast?, p c = false) (hne : t ≠ []) :
    ((w ++ (t ++ w')).dropWhile p).rdropWhile p = t := by
  obtain ⟨c, t', rfl⟩ := List.exists_cons_of_ne_nil hne
  have hfront : (w ++ (c :: t' ++ w')).dropWhile p = c :: t' ++ w' := by
    rw [List.dropWhile_append_of_pos hw, List.cons_append,
      List.dropWhile_cons_of_neg (by rw [hfirst c rfl]; decide)]
  have hback : (c :: t' ++ w').rdropWhile p = (c :: t').rdropWhile p := by
    rw [List.rdropWhile, List.reverse_append,
      List.dropWhile_append_of_pos fun d hd => hw' d (List.mem_reverse.mp hd), List.rdropWhile]
  have hself := trim_eq_self hfirst hlast
  rw [List.dropWhile_cons_of_neg (by rw [hfirst c rfl]; decide)] at hself
  rw [hfront, hback, hself]

/-- Trimmed text is not trimmed any further. -/
theorem trim_trim (t : List α) : (((t.dropWhile p).rdropWhile p).dropWhile p).rdropWhile p =
    (t.dropWhile p).rdropWhile p := by
  refine trim_eq_self (fun c hc => ?_) fun c hc => ?_
  · obtain ⟨rest, hrest⟩ := List.rdropWhile_prefix p (t.dropWhile p)
    have hhead := List.head?_dropWhile_not p t
    rw [← hrest, List.head?_append, Option.mem_def.mp hc] at hhead
    exact hhead
  · have hne : (t.dropWhile p).rdropWhile p ≠ [] := by
      intro hnil
      rw [hnil] at hc
      cases hc
    have hlast := List.rdropWhile_last_not p (t.dropWhile p) hne
    rw [List.getLast?_eq_some_getLast hne] at hc
    cases hc
    simpa using hlast

/-- What is kept by the trimming is found in the text as before. -/
theorem infix_dropWhile_iff {l : List α} (hne : l ≠ []) (hl : ∀ c ∈ l, p c = false) :
    l <:+: t.dropWhile p ↔ l <:+: t := by
  induction t with
  | nil => rfl
  | cons c t ih =>
    by_cases hc : p c = true
    · rw [List.dropWhile_cons_of_pos hc, ih, List.infix_cons_iff, or_iff_right]
      intro hp
      obtain ⟨d, l, rfl⟩ := List.exists_cons_of_ne_nil hne
      rw [(List.cons_prefix_cons.mp hp).1] at hl
      exact absurd hc (by rw [hl c List.mem_cons_self]; decide)
    · rw [List.dropWhile_cons_of_neg hc]

theorem infix_trim_iff {l : List α} (hne : l ≠ []) (hl : ∀ c ∈ l, p c = false) :
    l <:+: (t.dropWhile p).rdropWhile p ↔ l <:+: t := by
  have hback : l <:+: (t.dropWhile p).rdropWhile p ↔ l <:+: t.dropWhile p := by
    rw [List.rdropWhile, ← List.reverse_infix, List.reverse_reverse,
      infix_dropWhile_iff (by simpa using hne) (by simpa using hl), List.reverse_infix]
  rw [hback, infix_dropWhile_iff hne hl]

end Trim

/-- What holds of the characters of the parts and of the separator holds of the joined text. -/
theorem forall_mem_join {P : Char → Prop} {sep : List Char} {parts : List (List Char)}
    (hsep : ∀ c ∈ sep, P c) (hparts : ∀ part ∈ parts, ∀ c ∈ part, P c) :
    ∀ c ∈ join sep parts, P c := by
  induction parts with
  | nil => simp [join]
  | cons part parts ih =>
    have hpart := hparts part List.mem_cons_self
    have hrest := ih fun p hp => hparts p (List.mem_cons_of_mem _ hp)
    cases parts with
    | nil => simpa [join] using hpart
    | cons part' parts =>
      rw [join, List.intercalate_cons_cons, List.forall_mem_append, List.forall_mem_append]
      exact ⟨⟨hpart, hsep⟩, hrest⟩

/-- A fact about a literal is proved for the list of its characters. -/
theorem of_literal {P : List Char → Prop} {s : String} {l : List Char} (hs : s = String.ofList l)
    (h : P l) : P s.toList := by
  rw [hs, String.toList_ofList]
  exact h

/-- A fact about several literals. -/
theorem forall_literals {P : List Char → Prop} (ss : List String) (ls : List (List Char))
    (hs : ss = ls.map String.ofList) (h : ∀ l ∈ ls, P l) : ∀ l ∈ ss.map String.toList, P l := by
  intro t ht
  obtain ⟨s, hmem, rfl⟩ := List.mem_map.mp ht
  rw [hs] at hmem
  obtain ⟨l, hl, rfl⟩ := List.mem_map.mp hmem
  rw [String.toList_ofList]
  exact h l hl

end LiberNovus.Text

import LiberNovus.Foundation.Phrases
import LiberNovus.Reflection.Transformer

/-! A text as its words, each with what stands in front of it. A phrase of the patterns is looked
for in these pieces; only what stands between its words counts.

Proved: every text is made of its pieces and of what stands behind the last word. -/

namespace LiberNovus.Reflection

open Session Text Phrases

/-- A word, and the characters between it and the word before. -/
structure Piece where
  gap : List Char
  word : List Char
  deriving DecidableEq

/-- The pieces of a text. What stands behind the last word is left out. -/
def pieces [WordTable] : List Char → List Piece
  | [] => []
  | c :: text =>
    if isWordChar c then
      match pieces text with
      | ⟨[], word⟩ :: l => ⟨[], c :: word⟩ :: l
      | l => ⟨[], [c]⟩ :: l
    else
      match pieces text with
      | [] => []
      | ⟨gap, word⟩ :: l => ⟨c :: gap, word⟩ :: l

/-- Words are compared up to case. -/
def key (x : Piece) : List Char := x.word.map foldCase

/-- A single space stands between the words, as the patterns ask for. -/
def Strict (m : List Piece) : Prop := ∀ x ∈ m.tail, x.gap = [' ']

/-- Nothing but white space stands between the words. -/
def Spread (m : List Piece) : Prop := ∀ x ∈ m.tail, x.gap ≠ [] ∧ ∀ c ∈ x.gap, isSpace c = true

/-- White space that no pattern matches stands between the words. -/
def Loose (m : List Piece) : Prop := Spread m ∧ ¬ Strict m

def render (l : List Piece) : List Char := l.flatMap fun x => x.gap ++ x.word

@[simp] theorem render_nil : render [] = [] := rfl

@[simp] theorem render_cons (x : Piece) (l : List Piece) :
    render (x :: l) = x.gap ++ (x.word ++ render l) := by simp [render]

theorem render_append (m l : List Piece) : render (m ++ l) = render m ++ render l :=
  List.flatMap_append

theorem isLetter_of_space {c : Char} (h : isSpace c = true) : isLetter c = false := by
  simp only [isSpace, Bool.or_eq_true, Bool.and_eq_true, decide_eq_true_eq, beq_iff_eq] at h
  simp only [isLetter, Bool.or_eq_false_iff, Bool.and_eq_false_iff, decide_eq_false_iff_not,
    beq_eq_false_iff_ne]
  omega

section Shapes

variable [WordTable]

def Gap (text : List Char) : Prop := ∀ c ∈ text, isWordChar c = false

structure IsWord (text : List Char) : Prop where
  nonempty : text ≠ []
  wordChars : ∀ c ∈ text, isWordChar c = true

/-- The words are taken as far as they go; `inside` tells whether a word character stands in front
of the list. -/
def Shaped : Bool → List Piece → Prop
  | _, [] => True
  | inside, x :: l => (Gap x.gap ∧ (inside = true → x.gap ≠ []) ∧ IsWord x.word) ∧ Shaped true l

/-- The text is made of the pieces and of what stands behind them. -/
def Divided (text : List Char) (l : List Piece) : Prop :=
  ∃ trail, text = render l ++ trail ∧ Shaped false l ∧ Gap trail

theorem isWordChar_of_space {c : Char} (h : isSpace c = true) : isWordChar c = false := by
  have halnum := WordTable.not_space c h
  have hne : c ≠ '_' := by
    rintro rfl
    exact absurd h (by decide)
  simp [isWordChar, isLetter_of_space h, halnum, hne]

theorem space_of_isWordChar {c : Char} (h : isWordChar c = true) : isSpace c = false := by
  by_contra hspace
  rw [isWordChar_of_space (by simpa using hspace)] at h
  cases h

theorem gap_space : Gap [' '] := by
  simpa [Gap] using isWordChar_of_space (c := ' ') (by decide)

theorem shaped_append {m l : List Piece} :
    Shaped true (m ++ l) ↔ Shaped true m ∧ Shaped true l := by
  induction m with
  | nil => simp [Shaped]
  | cons x m ih => simp only [List.cons_append, Shaped, ih, and_assoc]

theorem divided_pieces (text : List Char) : Divided text (pieces text) := by
  induction text with
  | nil => exact ⟨[], rfl, trivial, by simp [Gap]⟩
  | cons c text ih =>
    obtain ⟨trail, htext, hshaped, htrail⟩ := ih
    rw [pieces]
    split_ifs with hc
    · split
      next word l heq =>
        rw [heq] at htext hshaped
        obtain ⟨⟨-, -, hword⟩, hl⟩ := hshaped
        refine ⟨trail, by simpa using htext, ⟨⟨by simp [Gap], by simp, by simp, ?_⟩, hl⟩, htrail⟩
        exact List.forall_mem_cons.mpr ⟨hc, hword.wordChars⟩
      next l hnot =>
        refine ⟨trail, by simpa using htext, ⟨⟨by simp [Gap], by simp, by simp, by simpa⟩, ?_⟩, htrail⟩
        cases h : pieces text with
        | nil => trivial
        | cons x l =>
          rw [h] at hshaped
          refine ⟨⟨hshaped.1.1, fun _ hgap => hnot x.word l ?_, hshaped.1.2.2⟩, hshaped.2⟩
          rw [h, ← hgap]
    · have hgap : ∀ gap, Gap gap → Gap (c :: gap) := fun gap h =>
        List.forall_mem_cons.mpr ⟨by simpa using hc, h⟩
      split
      next heq =>
        rw [heq] at htext
        exact ⟨c :: trail, by simpa using htext, trivial, hgap trail htrail⟩
      next gap word l heq =>
        rw [heq] at htext hshaped
        obtain ⟨⟨hg, -, hword⟩, hl⟩ := hshaped
        exact ⟨trail, by simpa using htext, ⟨⟨hgap gap hg, by simp, hword⟩, hl⟩, htrail⟩

end Shapes

end LiberNovus.Reflection

import LiberNovus.Dialogue.Policy
import LiberNovus.Foundation.Words

/-! What the proofs use of `str.lower`, and a table of letters that has it. -/

namespace LiberNovus.Dialogue

open Session Text

/-- `str.lower` keeps white space, and lowers the words between on their own: a word becomes
a word. -/
class LawfulCaseTable [CaseTable] : Prop where
  lower_nil : CaseTable.lower [] = []
  lower_space {c : Char} (before after : List Char) : isSpace c = true →
    CaseTable.lower (before ++ c :: after) = CaseTable.lower before ++ c :: CaseTable.lower after
  lower_word {word : List Char} : word ≠ [] → Solid word →
    CaseTable.lower word ≠ [] ∧ Solid (CaseTable.lower word)

section Lower

variable [CaseTable] [LawfulCaseTable]

/-- Lower case keeps the number of words. -/
theorem length_words_lower (text : List Char) :
    (words (CaseTable.lower text)).length = (words text).length := by
  have hword : ∀ word, Solid word →
      (words (CaseTable.lower word)).length = (words word).length := by
    intro word hword
    by_cases hne : word = []
    · rw [hne, LawfulCaseTable.lower_nil]
    · obtain ⟨hlower, hsolid⟩ := LawfulCaseTable.lower_word hne hword
      rw [words_solid hword hne, words_solid hsolid hlower, List.length_singleton,
        List.length_singleton]
  induction text using text_induction with
  | solid word h => exact hword word h
  | space word c rest h hc ih =>
    rw [LawfulCaseTable.lower_space _ _ hc, words_append_space hc, words_append_space hc,
      List.length_append, List.length_append, ih, hword word h]

end Lower

/-! ### Letters -/

theorem lowerLetter_space {c : Char} (h : isSpace c = true) : lowerLetter c = [c] := by
  have hc : c.toNat < 0x41 ∨ 0x7f < c.toNat ∧ c.toNat < 0x130 ∨ 0x450 ≤ c.toNat ∧ c.toNat < 0x212a ∨
      0x3000 ≤ c.toNat := by
    simp only [isSpace, Bool.or_eq_true, Bool.and_eq_true, decide_eq_true_eq, beq_iff_eq] at h
    omega
  unfold lowerLetter
  simp only
  rw [if_neg (by omega), if_neg (by omega), if_neg (by omega), if_neg (by omega),
    if_neg (by omega)]

theorem solid_lowerLetter {c : Char} (h : isSpace c = false) :
    lowerLetter c ≠ [] ∧ Solid (lowerLetter c) := by
  have hlatin : ∀ n < 0x5b, 0x41 ≤ n → isSpace (Char.ofNat (n + 0x20)) = false := by decide
  have hcyrillic : ∀ n < 0x20, isSpace (Char.ofNat (0x410 + n + 0x20)) = false := by decide
  unfold lowerLetter
  simp only
  split
  · next hn => exact ⟨by simp, by simpa [Solid] using hlatin _ (by omega) hn.1⟩
  · split
    · next hn =>
      have hd := hcyrillic (c.toNat - 0x410) (by omega)
      rw [Nat.add_sub_cancel' hn.1] at hd
      exact ⟨by simp, by simpa [Solid] using hd⟩
    · have hother : isSpace 'ё' = false ∧ isSpace 'i' = false ∧ isSpace (Char.ofNat 0x307) = false ∧
          isSpace 'k' = false := by decide
      split
      · exact ⟨by simp, by simpa [Solid] using hother.1⟩
      · split
        · exact ⟨by simp, by simpa [Solid] using ⟨hother.2.1, hother.2.2.1⟩⟩
        · split
          · exact ⟨by simp, by simpa [Solid] using hother.2.2.2⟩
          · exact ⟨by simp, by simpa [Solid] using h⟩

/-- The letters of the tokens, each on its own. -/
abbrev letterCase : CaseTable := ⟨fun text => text.flatMap lowerLetter, fun a b =>
  lowerLetter a == lowerLetter b⟩

theorem lawful_letterCase : @LawfulCaseTable letterCase := by
  refine @LawfulCaseTable.mk letterCase rfl ?_ ?_
  · intro c before after hc
    show (before ++ c :: after).flatMap lowerLetter = _
    rw [List.flatMap_append, List.flatMap_cons, lowerLetter_space hc, List.singleton_append]
    rfl
  · intro word hne hsolid
    obtain ⟨c, rest, rfl⟩ := List.exists_cons_of_ne_nil hne
    refine ⟨?_, ?_⟩
    · show (c :: rest).flatMap lowerLetter ≠ []
      simp [(solid_lowerLetter (hsolid c List.mem_cons_self)).1]
    · intro d hd
      obtain ⟨c, hc, hd⟩ := List.mem_flatMap.mp hd
      exact (solid_lowerLetter (hsolid c hc)).2 d hd

end LiberNovus.Dialogue

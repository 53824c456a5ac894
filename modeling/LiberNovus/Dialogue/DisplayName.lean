import LiberNovus.Dialogue.Prompt
import LiberNovus.Foundation.Lines
import LiberNovus.Foundation.Words

/-! The display name of a user as it is pasted into a prompt. Every line boundary and every
control character is gone with the white space, but the name is cut last, and the cut can leave a
space at its end.

Proved: the name is clean exactly when no words at its start are 63 characters long with another
word behind them. -/

namespace LiberNovus.Dialogue

open Text

/-- The words of a name: control characters separate them, too. -/
def nameWords (raw : String) : List (List Char) :=
  words (((raw.toList.takeWhile (· ≠ '\n')).takeWhile (· ≠ '\r')).map fun c =>
    if c.toNat < 0x20 ∨ c.toNat = 0x7f then ' ' else c)

/-- A single line that the sanitising does not change any more. -/
structure CleanName (name : String) : Prop where
  length : 1 ≤ name.length ∧ name.length ≤ 64
  oneLine : OneLine name.toList
  noControl : ∀ c ∈ name.toList, 0x20 ≤ c.toNat ∧ c.toNat ≠ 0x7f
  noLeadingSpace : ∀ c ∈ name.toList.head?, isSpace c = false
  noTrailingSpace : ∀ c ∈ name.toList.getLast?, isSpace c = false
  stable : sanitizeUserDisplayName (some name) = some name

theorem sanitizeUserDisplayName_eq (raw : String) : sanitizeUserDisplayName (some raw) =
    if nameWords raw = [] then none else some (String.ofList ((join [' '] (nameWords raw)).take 64)) := by
  simp only [sanitizeUserDisplayName, squeeze_eq_nil]
  rfl

def Visible (c : Char) : Prop := isSpace c = false ∧ 0x20 ≤ c.toNat ∧ c.toNat ≠ 0x7f

theorem visible_of_mem_nameWords {raw : String} :
    ∀ word ∈ nameWords raw, ∀ c ∈ word, Visible c := by
  intro word hword c hc
  refine ⟨(solid_of_mem_words hword).2 c hc, ?_⟩
  obtain ⟨d, -, rfl⟩ := List.mem_map.mp (mem_of_mem_words hword hc)
  split
  · decide
  · omega

theorem isBreak_eq_false {c : Char} (h : isSpace c = false) : isBreak c = false := by
  simp only [isSpace, isBreak, Bool.or_eq_false_iff, Bool.and_eq_false_iff, decide_eq_false_iff_not,
    beq_eq_false_iff_ne] at h ⊢
  omega

theorem visible_facts {c : Char} (h : Visible c ∨ c = ' ') :
    isBreak c = false ∧ 0x20 ≤ c.toNat ∧ c.toNat ≠ 0x7f := by
  rcases h with ⟨hspace, hlow, hdel⟩ | rfl
  · exact ⟨isBreak_eq_false hspace, hlow, hdel⟩
  · decide

/-- A name that is in order already is kept. -/
theorem sanitizeUserDisplayName_self {t : List Char} (hchars : ∀ c ∈ t, Visible c ∨ c = ' ')
    (hsqueeze : squeeze t = t) (hne : t ≠ []) (hlen : t.length ≤ 64) :
    sanitizeUserDisplayName (some (String.ofList t)) = some (String.ofList t) := by
  have hline : (t.takeWhile (· ≠ '\n')).takeWhile (· ≠ '\r') = t := by
    have hne : ∀ d, isBreak d = true → ∀ c ∈ t, decide (c ≠ d) = true := by
      intro d hd c hc
      have hbreak := (visible_facts (hchars c hc)).1
      rw [decide_eq_true_eq]
      rintro rfl
      exact absurd hd (by rw [hbreak]; decide)
    rw [List.takeWhile_eq_self_iff.mpr (hne '\n' (by decide)),
      List.takeWhile_eq_self_iff.mpr (hne '\r' (by decide))]
  have hmap : (t.map fun c => if c.toNat < 0x20 ∨ c.toNat = 0x7f then ' ' else c) = t := by
    refine (List.map_congr_left fun c hc => ?_).trans (List.map_id t)
    have := (visible_facts (hchars c hc)).2
    exact if_neg (by omega)
  simp only [sanitizeUserDisplayName, String.toList_ofList, hline, hmap, hsqueeze, if_neg hne,
    List.take_of_length_le hlen]

/-- The cut leaves no space at the end, unless 63 characters of whole words come before it. -/
theorem getLast_cut {parts : List (List Char)} (hparts : ∀ word ∈ parts, word ≠ [] ∧ Solid word)
    (h : ∀ k < parts.length, (join [' '] (parts.take k)).length ≠ 63) :
    ((join [' '] parts).take 64).getLast? ≠ some ' ' := by
  intro hspace
  obtain ⟨a, ha⟩ := List.getLast?_eq_some_iff.mp hspace
  have hsplit := (List.take_append_drop 64 (join [' '] parts)).symm
  rw [ha, List.append_assoc, List.singleton_append] at hsplit
  obtain ⟨k, hk, rfl⟩ := exists_take_of_join hparts hsplit
  rcases Nat.lt_or_ge 63 (join [' '] parts).length with hlong | hshort
  · have hlen := congrArg List.length ha
    rw [List.length_take, List.length_append, List.length_singleton] at hlen
    exact h k hk (by omega)
  · rw [List.take_of_length_le (by omega)] at hspace
    exact absurd ((trimmed_join hparts).2 ' ' hspace) (by decide)

/-- The name is clean if and only if it is not cut behind a space. -/
theorem cleanName_iff (raw : String) :
    (∀ name, sanitizeUserDisplayName (some raw) = some name → CleanName name) ↔
      ∀ k < (nameWords raw).length, (join [' '] ((nameWords raw).take k)).length ≠ 63 := by
  have hwords : ∀ word ∈ nameWords raw, word ≠ [] ∧ Solid word := fun _ h => solid_of_mem_words h
  rw [sanitizeUserDisplayName_eq]
  by_cases hnil : nameWords raw = []
  · simp [hnil]
  have hne := join_ne_nil (fun word hword => (hwords word hword).1) hnil
  have hchars : ∀ c ∈ join [' '] (nameWords raw), Visible c ∨ c = ' ' := forall_mem_join (by simp)
    fun word hword c hc => Or.inl (visible_of_mem_nameWords word hword c hc)
  rw [if_neg hnil]
  simp only [Option.some.injEq, forall_eq']
  constructor
  · intro hclean k hk hlen
    have hpos : 0 < k := by
      rcases Nat.eq_zero_or_pos k with rfl | hpos
      · simp [join] at hlen
      · exact hpos
    have hlast := hclean.noTrailingSpace
    rw [String.toList_ofList, join_take hpos hk, List.take_append, hlen, List.take_of_length_le (by omega)]
      at hlast
    exact absurd (hlast ' ' (by simp)) (by decide)
  · intro h
    have hlast := getLast_cut hwords h
    have hsqueeze := squeeze_of_prefix hwords (List.take_prefix 64 _) hlast
    have hcut : ∀ c ∈ (join [' '] (nameWords raw)).take 64, Visible c ∨ c = ' ' :=
      fun c hc => hchars c (List.mem_of_mem_take hc)
    have hne' : (join [' '] (nameWords raw)).take 64 ≠ [] := by simpa using hne
    have hcutWords : ∀ word ∈ words ((join [' '] (nameWords raw)).take 64), word ≠ [] ∧ Solid word :=
      fun _ => solid_of_mem_words
    have htrimmed := trimmed_join hcutWords
    rw [← squeeze, hsqueeze] at htrimmed
    refine ⟨?_, ?_, ?_, ?_, ?_, sanitizeUserDisplayName_self hcut hsqueeze hne'
      (List.length_take_le 64 _)⟩
    · rw [String.length_ofList]
      exact ⟨List.length_pos_iff.mpr hne', List.length_take_le 64 _⟩
    all_goals rw [String.toList_ofList]
    · exact fun c hc => (visible_facts (hcut c hc)).1
    · exact fun c hc => (visible_facts (hcut c hc)).2
    · exact htrimmed.1
    · exact htrimmed.2

/-- A word of 63 letters, and another one: the cut leaves the space between them. -/
theorem cut_behind_space : ¬ ∀ raw name,
    sanitizeUserDisplayName (some raw) = some name → CleanName name := by
  intro h
  have hname : sanitizeUserDisplayName (some (String.ofList (List.replicate 63 'a' ++ [' ', 'b']))) =
      some (String.ofList (List.replicate 63 'a' ++ [' '])) := by
    simp only [sanitizeUserDisplayName, String.toList_ofList]
    rfl
  have hlast := (h _ _ hname).noTrailingSpace ' ' (by rw [String.toList_ofList, List.getLast?_concat]; rfl)
  exact absurd hlast (by decide)

end LiberNovus.Dialogue

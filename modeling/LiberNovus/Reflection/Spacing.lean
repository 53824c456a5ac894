import LiberNovus.Reflection.Pieces

/-! The white space that the sanitising puts in order last, and the pieces of the text.

Proved: collapsing and stripping a text joins its words again, and on the pieces it makes every
separator of white space the single space that the patterns ask for. -/

namespace LiberNovus.Reflection

open Session Text Phrases

/-! ### Words -/

theorem collapse_solid {word : List Char} (h : Solid word) (rest : List Char) {after : Bool}
    (hne : word ≠ []) : collapse after (word ++ rest) = word ++ collapse false rest := by
  induction word generalizing after with
  | nil => exact absurd rfl hne
  | cons c word ih =>
    obtain ⟨hc, hword⟩ := List.forall_mem_cons.mp h
    rw [List.cons_append, collapse, hc, List.cons_append, if_neg (by decide), List.cons.injEq]
    refine ⟨rfl, ?_⟩
    cases word with
    | nil => rfl
    | cons d word => exact ih hword (List.cons_ne_nil d word)

/-- Behind a space the words are joined; a last space may be left. -/
theorem collapse_true (text : List Char) : ∃ after, collapse true text = squeeze text ++ after ∧
    (words text = [] → after = []) ∧ ∀ c ∈ after, isSpace c = true := by
  induction text using text_induction with
  | solid word hword =>
    refine ⟨[], ?_, by simp, by simp⟩
    by_cases hne : word = []
    · simp [hne, collapse, squeeze, join]
    · have h : collapse true (word ++ []) = word ++ collapse false [] := collapse_solid hword [] hne
      rw [List.append_nil] at h
      simp [h, squeeze, words_solid hword hne, join, collapse]
  | space word c rest hword hc ih =>
    obtain ⟨after, hrest, hnil, hafter⟩ := ih
    by_cases hne : word = []
    · subst hne
      refine ⟨after, ?_, by rwa [List.nil_append, words_space hc], hafter⟩
      rw [List.nil_append, collapse, if_pos hc, if_pos rfl, hrest, squeeze, squeeze, words_space hc]
    have hwords : words (word ++ c :: rest) = word :: words rest := by
      rw [words_append_space hc, words_solid hword hne, List.singleton_append]
    have hcollapse : collapse true (word ++ c :: rest) = word ++ ' ' :: (squeeze rest ++ after) := by
      rw [collapse_solid hword _ hne, collapse, if_pos hc, if_neg (by decide), hrest]
    cases hparts : words rest with
    | nil =>
      refine ⟨[' '], ?_, by simp [hwords], by decide⟩
      have hempty : squeeze rest = [] := squeeze_eq_nil.mpr hparts
      rw [hcollapse, hempty, hnil hparts, squeeze, hwords, hparts]
      simp [join]
    | cons next parts =>
      refine ⟨after, ?_, by simp [hwords], hafter⟩
      rw [hcollapse, squeeze, squeeze, hwords, hparts, join_cons_cons, List.append_assoc,
        List.cons_append]

/-- `re.sub(r"\s+", " ", text).strip()` joins the words of the text. -/
theorem strip_collapse (text : List Char) : strip (collapse false text) = squeeze text := by
  obtain ⟨before, hbefore, hspace⟩ : ∃ before, collapse false text = before ++ collapse true text ∧
      ∀ c ∈ before, isSpace c = true := by
    cases text with
    | nil => exact ⟨[], rfl, by simp⟩
    | cons c text =>
      by_cases hc : isSpace c = true
      · exact ⟨[' '], by simp [collapse, hc], by decide⟩
      · exact ⟨[], by simp [collapse, hc], by simp⟩
  obtain ⟨after, hafter, -, hspace'⟩ := collapse_true text
  rw [hbefore, hafter, strip]
  have htrimmed := trimmed_join fun word (h : word ∈ words text) => solid_of_mem_words h
  by_cases hnil : squeeze text = []
  · rw [hnil, List.nil_append, List.dropWhile_append_of_pos hspace,
      List.dropWhile_eq_nil_iff.mpr hspace', List.rdropWhile_nil]
  · exact trim_append hspace hspace' htrimmed.1 htrimmed.2 hnil

/-! ### Pieces -/

theorem collapse_eq_nil {text : List Char} : collapse true text = [] ↔ ∀ c ∈ text, isSpace c = true := by
  induction text with
  | nil => simp [collapse]
  | cons c text ih =>
    rw [collapse, List.forall_mem_cons, ← ih]
    by_cases hc : isSpace c = true <;> simp [hc]

/-- A separator that becomes a single space. -/
theorem collapse_eq_space {gap : List Char} :
    collapse false gap = [' '] ↔ gap ≠ [] ∧ ∀ c ∈ gap, isSpace c = true := by
  cases gap with
  | nil => simp [collapse]
  | cons c gap =>
    rw [collapse, List.forall_mem_cons, ← collapse_eq_nil]
    by_cases hc : isSpace c = true
    · simp [hc]
    · have hne : c ≠ ' ' := by
        rintro rfl
        exact hc (by decide)
      simp [hc, hne]

theorem collapse_false_eq_nil {text : List Char} : collapse false text = [] ↔ text = [] := by
  cases text with
  | nil => simp [collapse]
  | cons c text => by_cases hc : isSpace c = true <;> simp [collapse, hc]

theorem mem_collapse {text : List Char} {after : Bool} {c : Char} (h : c ∈ collapse after text) :
    c ∈ text ∨ c = ' ' := by
  induction text generalizing after with
  | nil => simp [collapse] at h
  | cons d text ih =>
    rw [collapse] at h
    split_ifs at h
    · exact (ih h).imp_left (List.mem_cons_of_mem d)
    all_goals
      rcases List.mem_cons.mp h with rfl | h
      · simp
      · exact (ih h).imp_left (List.mem_cons_of_mem d)

theorem collapse_append {text word rest : List Char} {after : Bool} (h : Solid word) (hne : word ≠ []) :
    collapse after (text ++ (word ++ rest)) = collapse after text ++ (word ++ collapse false rest) := by
  induction text generalizing after with
  | nil => rw [List.nil_append, collapse_solid h rest hne, collapse, List.nil_append]
  | cons c text ih =>
    rw [List.cons_append, collapse, collapse]
    split_ifs <;> simp [ih]

/-- A piece whose white space is collapsed. -/
def Piece.collapse (x : Piece) : Piece := { x with gap := Reflection.collapse false x.gap }

section Division

variable [WordTable] {text : List Char} {l : List Piece}

theorem Gap.collapse (h : Gap text) : Gap (collapse false text) := by
  intro c hc
  rcases mem_collapse hc with hc | rfl
  · exact h c hc
  · exact isWordChar_of_space (by decide)

theorem collapse_render {inside : Bool} {trail : List Char} (h : Shaped inside l) :
    Reflection.collapse false (render l ++ trail) =
      render (l.map Piece.collapse) ++ Reflection.collapse false trail := by
  induction l generalizing inside with
  | nil => rfl
  | cons x l ih =>
    obtain ⟨⟨-, -, hword⟩, hl⟩ := h
    have hsolid : Solid x.word := fun c hc => space_of_isWordChar (hword.wordChars c hc)
    rw [render_cons, List.append_assoc, List.append_assoc, collapse_append hsolid hword.nonempty,
      ih hl, List.map_cons, render_cons, List.append_assoc, List.append_assoc, Piece.collapse]

theorem Shaped.collapse {inside : Bool} (h : Shaped inside l) :
    Shaped inside (l.map Piece.collapse) := by
  induction l generalizing inside with
  | nil => trivial
  | cons x l ih =>
    obtain ⟨⟨hgap, hne, hword⟩, hl⟩ := h
    exact ⟨⟨hgap.collapse, fun hinside hnil => hne hinside (collapse_false_eq_nil.mp hnil), hword⟩, ih hl⟩

theorem Divided.collapse (h : Divided text l) :
    Divided (Reflection.collapse false text) (l.map Piece.collapse) := by
  obtain ⟨trail, rfl, hl, htrail⟩ := h
  exact ⟨Reflection.collapse false trail, collapse_render hl, hl.collapse, htrail.collapse⟩

omit [WordTable] in
/-- The patterns find in the collapsed text what is separated by white space. -/
theorem occurs_collapse {q : List (List Char)} :
    Occurs key q Strict (l.map Piece.collapse) ↔ Occurs key q Spread l := by
  have hstrict : (fun m : List Piece => Strict (m.map Piece.collapse)) = Spread := by
    funext m
    rw [Strict, Spread, ← List.map_tail, List.forall_mem_map, eq_iff_iff]
    exact forall₂_congr fun x _ => collapse_eq_space
  rw [occurs_map (f := Piece.collapse) (fun _ => rfl), hstrict]

end Division

end LiberNovus.Reflection

import LiberNovus.Foundation.Text

/-! The words of a text: white space separates them, and neither stripping the text nor
joining its words again changes them. -/

namespace LiberNovus.Text

/-- Text without white space. -/
def Solid (word : List Char) : Prop := ∀ c ∈ word, isSpace c = false

instance (word : List Char) : Decidable (Solid word) := inferInstanceAs (Decidable (∀ c ∈ _, _))

/-- Text is taken apart at its first white space. -/
@[elab_as_elim]
theorem text_induction {P : List Char → Prop} (solid : ∀ word, Solid word → P word)
    (space : ∀ word c rest, Solid word → isSpace c = true → P rest → P (word ++ c :: rest)) :
    ∀ text, P text := by
  intro text
  induction hn : text.length using Nat.strong_induction_on generalizing text with
  | _ n ih =>
    have hword : Solid (text.takeWhile (!isSpace ·)) := fun c hc => by
      simpa using List.mem_takeWhile_imp hc
    cases hrest : text.dropWhile (!isSpace ·) with
    | nil =>
      rw [List.dropWhile_eq_nil_iff] at hrest
      exact solid text fun c hc => by simpa using hrest c hc
    | cons c rest =>
      have hsplit : text.takeWhile (!isSpace ·) ++ c :: rest = text := by
        rw [← hrest, List.takeWhile_append_dropWhile]
      have hc : isSpace c = true := by
        have hhead := List.head_dropWhile_not (!isSpace ·) (l := text) (by rw [hrest]; simp)
        simpa [hrest] using hhead
      rw [← hsplit]
      refine space _ c rest hword hc (ih rest.length ?_ rest rfl)
      rw [← hn, ← hsplit, List.length_append, List.length_cons]
      omega

@[simp] theorem words_nil : words [] = [] := by simp [words]

theorem words_solid {word : List Char} (h : Solid word) (hne : word ≠ []) : words word = [word] := by
  simp [words, List.splitOnP_eq_singleton h, hne]

/-- White space separates the words before it from those after it. -/
theorem words_append_space {c : Char} (hc : isSpace c = true) (before after : List Char) :
    words (before ++ c :: after) = words before ++ words after := by
  rw [words, List.splitOnP_append_cons _ _ hc, List.filter_append, words, words]

theorem words_space {c : Char} (hc : isSpace c = true) (after : List Char) :
    words (c :: after) = words after := by
  simpa using words_append_space hc [] after

/-- The words are not empty and have no white space. -/
theorem solid_of_mem_words {text word : List Char} (h : word ∈ words text) :
    word ≠ [] ∧ Solid word := by
  induction text using text_induction with
  | solid t ht =>
    by_cases hne : t = []
    · simp [hne] at h
    · rw [words_solid ht hne, List.mem_singleton] at h
      exact h ▸ ⟨hne, ht⟩
  | space t c rest ht hc ih =>
    rw [words_append_space hc, List.mem_append] at h
    rcases h with h | h
    · by_cases hne : t = []
      · simp [hne] at h
      · rw [words_solid ht hne, List.mem_singleton] at h
        exact h ▸ ⟨hne, ht⟩
    · exact ih h

/-- The characters of a word are characters of the text. -/
theorem mem_of_mem_words {text word : List Char} (h : word ∈ words text) {d : Char} (hd : d ∈ word) :
    d ∈ text := by
  induction text using text_induction with
  | solid t ht =>
    by_cases hne : t = []
    · simp [hne] at h
    · rw [words_solid ht hne, List.mem_singleton] at h
      exact h ▸ hd
  | space t c rest ht hc ih =>
    rw [words_append_space hc, List.mem_append] at h
    rcases h with h | h
    · by_cases hne : t = []
      · simp [hne] at h
      · rw [words_solid ht hne, List.mem_singleton] at h
        exact List.mem_append_left _ (h ▸ hd)
    · exact List.mem_append_right _ (List.mem_cons_of_mem _ (ih h))

/-! ### Stripped text -/

theorem words_spaces_append {spaces : List Char} (h : ∀ c ∈ spaces, isSpace c = true)
    (text : List Char) : words (spaces ++ text) = words text := by
  induction spaces with
  | nil => rfl
  | cons c spaces ih =>
    rw [List.cons_append, words_space (h c List.mem_cons_self)]
    exact ih fun d hd => h d (List.mem_cons_of_mem _ hd)

theorem words_append_spaces {spaces : List Char} (h : ∀ c ∈ spaces, isSpace c = true)
    (text : List Char) : words (text ++ spaces) = words text := by
  cases spaces with
  | nil => rw [List.append_nil]
  | cons c spaces =>
    have hrest : words spaces = [] := by
      simpa using words_spaces_append (fun d hd => h d (List.mem_cons_of_mem _ hd)) []
    rw [words_append_space (h c List.mem_cons_self), hrest, List.append_nil]

/-- A text is white space, the stripped text, and white space. -/
theorem exists_strip (text : List Char) : ∃ before after, text = before ++ (strip text ++ after) ∧
    (∀ c ∈ before, isSpace c = true) ∧ ∀ c ∈ after, isSpace c = true := by
  refine ⟨text.takeWhile isSpace, (text.dropWhile isSpace).rtakeWhile isSpace, ?_,
    fun c hc => List.mem_takeWhile_imp hc, fun c hc => List.mem_rtakeWhile_imp hc⟩
  rw [strip, List.rdropWhile_append_rtakeWhile, List.takeWhile_append_dropWhile]

theorem words_strip (text : List Char) : words (strip text) = words text := by
  obtain ⟨before, after, hsplit, hbefore, hafter⟩ := exists_strip text
  conv_rhs => rw [hsplit]
  rw [words_spaces_append hbefore, words_append_spaces hafter]

/-! ### Joined words -/

theorem join_cons_cons (word next : List Char) (rest : List (List Char)) :
    join [' '] (word :: next :: rest) = word ++ ' ' :: join [' '] (next :: rest) := by
  simp [join, List.intercalate_cons_cons]

theorem words_join {parts : List (List Char)} (h : ∀ word ∈ parts, word ≠ [] ∧ Solid word) :
    words (join [' '] parts) = parts := by
  induction parts with
  | nil => exact words_nil
  | cons word rest ih =>
    obtain ⟨hne, hsolid⟩ := h word List.mem_cons_self
    have hrest := ih fun w hw => h w (List.mem_cons_of_mem _ hw)
    cases rest with
    | nil => simpa [join] using words_solid hsolid hne
    | cons next rest =>
      rw [join_cons_cons, words_append_space (by decide), words_solid hsolid hne, hrest,
        List.singleton_append]

/-- Joining the words of a text again keeps them. -/
@[simp] theorem words_squeeze (text : List Char) : words (squeeze text) = words text :=
  words_join fun _ h => solid_of_mem_words h

theorem join_ne_nil {parts : List (List Char)} (h : ∀ word ∈ parts, word ≠ []) (hne : parts ≠ []) :
    join [' '] parts ≠ [] := by
  obtain ⟨word, rest, rfl⟩ := List.exists_cons_of_ne_nil hne
  have hword := h word List.mem_cons_self
  cases rest with
  | nil => simpa [join] using hword
  | cons next rest => simp [join_cons_cons]

/-- Joined words neither start nor end with white space. -/
theorem trimmed_join {parts : List (List Char)} (h : ∀ word ∈ parts, word ≠ [] ∧ Solid word) :
    (∀ c ∈ (join [' '] parts).head?, isSpace c = false) ∧
      ∀ c ∈ (join [' '] parts).getLast?, isSpace c = false := by
  induction parts with
  | nil => simp [join]
  | cons word rest ih =>
    obtain ⟨hne, hsolid⟩ := h word List.mem_cons_self
    have hrest := fun w hw => h w (List.mem_cons_of_mem word hw)
    cases rest with
    | nil =>
      rw [join, List.intercalate_singleton]
      exact ⟨fun c hc => hsolid c (List.mem_of_head? hc), fun c hc => hsolid c (List.mem_of_getLast? hc)⟩
    | cons next rest =>
      rw [join_cons_cons]
      have hjoin := join_ne_nil (fun w hw => (hrest w hw).1) (List.cons_ne_nil next rest)
      constructor
      · intro c hc
        rw [List.head?_append_of_ne_nil _ hne] at hc
        exact hsolid c (List.mem_of_head? hc)
      · intro c hc
        rw [List.getLast?_append_of_ne_nil _ (List.cons_ne_nil _ _), List.getLast?_cons_of_ne_nil hjoin]
          at hc
        exact (ih hrest).2 c hc

/-- There is nothing to strip from the joined words of a text. -/
theorem strip_squeeze (text : List Char) : strip (squeeze text) = squeeze text := by
  have htrimmed := trimmed_join fun word (h : word ∈ words text) => solid_of_mem_words h
  exact trim_eq_self htrimmed.1 htrimmed.2

/-- A part of joined words that goes up to a space is some of the words. -/
theorem join_take {parts : List (List Char)} {k : ℕ} (hpos : 0 < k) (hk : k < parts.length) :
    join [' '] parts = join [' '] (parts.take k) ++ ' ' :: join [' '] (parts.drop k) := by
  induction k generalizing parts with
  | zero => omega
  | succ k ih =>
    obtain ⟨word, next, rest, rfl⟩ : ∃ word next rest, parts = word :: next :: rest := by
      match parts, hk with
      | word :: next :: rest, _ => exact ⟨word, next, rest, rfl⟩
    rw [join_cons_cons, List.take_succ_cons, List.drop_succ_cons]
    rcases Nat.eq_zero_or_pos k with rfl | hpos
    · simp [join]
    · obtain ⟨j, rfl⟩ := Nat.exists_eq_succ_of_ne_zero hpos.ne'
      rw [ih hpos (by simpa using hk), Nat.succ_eq_add_one, List.take_succ_cons, join_cons_cons,
        List.append_assoc, List.cons_append]

theorem exists_take_of_join {parts : List (List Char)} (h : ∀ word ∈ parts, word ≠ [] ∧ Solid word)
    {a b : List Char} (hab : join [' '] parts = a ++ ' ' :: b) :
    ∃ k < parts.length, a = join [' '] (parts.take k) := by
  induction parts generalizing a with
  | nil => simp [join] at hab
  | cons word rest ih =>
    have hspace : ∀ w ∈ word :: rest, ' ' ∉ w := fun w hw hc => absurd ((h w hw).2 _ hc) (by decide)
    have hword := hspace word List.mem_cons_self
    cases rest with
    | nil =>
      rw [join, List.intercalate_singleton] at hab
      exact absurd (hab ▸ List.mem_append_right a List.mem_cons_self) hword
    | cons next rest =>
      rw [join_cons_cons, List.append_eq_append_iff] at hab
      rcases hab with ⟨as, rfl, hab⟩ | ⟨as, rfl, hab⟩
      · cases as with
        | nil => exact ⟨1, by simp, by simp [join]⟩
        | cons c as =>
          rw [List.cons_append, List.cons.injEq] at hab
          obtain ⟨rfl, hrest⟩ := hab
          obtain ⟨k, hk, rfl⟩ := ih (fun w hw => h w (List.mem_cons_of_mem _ hw)) hrest
          refine ⟨k + 1, by simpa using hk, ?_⟩
          cases k with
          | zero =>
            -- the next word would start with the space
            obtain ⟨c, next, rfl⟩ := List.exists_cons_of_ne_nil (h next (by simp)).1
            have hc : c = ' ' := by
              cases rest <;> simpa [join, List.intercalate_cons_cons] using congrArg List.head? hrest
            exact absurd (hc ▸ List.mem_cons_self) (hspace (c :: next) (by simp))
          | succ k => simp only [List.take_succ_cons, join_cons_cons]
      · cases as with
        | nil => exact ⟨1, by simp, by simp [join]⟩
        | cons c as =>
          rw [List.cons_append, List.cons.injEq] at hab
          exact absurd (List.mem_append_right a (hab.1 ▸ List.mem_cons_self)) hword

/-- The beginning of joined words is joined words, unless a space is left at its end. -/
theorem squeeze_of_prefix {parts : List (List Char)} (h : ∀ word ∈ parts, word ≠ [] ∧ Solid word)
    {t : List Char} (ht : t <+: join [' '] parts) (hlast : t.getLast? ≠ some ' ') :
    squeeze t = t := by
  suffices hjoin : ∃ vs : List (List Char), (∀ v ∈ vs, v ≠ [] ∧ Solid v) ∧ t = join [' '] vs by
    obtain ⟨vs, hvs, rfl⟩ := hjoin
    rw [squeeze, words_join hvs]
  have hsingle : ∀ {word : List Char}, Solid word → ∀ {t : List Char}, t <+: word →
      ∃ vs : List (List Char), (∀ v ∈ vs, v ≠ [] ∧ Solid v) ∧ t = join [' '] vs := by
    intro word hword t ht
    by_cases hne : t = []
    · exact ⟨[], by simp, by simp [hne, join]⟩
    · exact ⟨[t], by simpa using ⟨hne, fun c hc => hword c (ht.subset hc)⟩, by simp [join]⟩
  induction parts generalizing t with
  | nil => exact ⟨[], by simp, List.prefix_nil.mp ht⟩
  | cons word rest ih =>
    obtain ⟨hne, hsolid⟩ := h word List.mem_cons_self
    cases rest with
    | nil =>
      rw [join, List.intercalate_singleton] at ht
      exact hsingle hsolid ht
    | cons next rest =>
      rw [join_cons_cons] at ht
      rcases List.prefix_or_prefix_of_prefix ht (List.prefix_append word _) with hle | ⟨u, rfl⟩
      · exact hsingle hsolid hle
      rw [List.prefix_append_right_inj, List.prefix_cons_iff] at ht
      obtain rfl | ⟨u, rfl, ht⟩ := ht
      · exact hsingle hsolid (by simp)
      have hu : u ≠ [] := by
        rintro rfl
        simp at hlast
      have hlast' : u.getLast? ≠ some ' ' := by
        rwa [List.getLast?_append_of_ne_nil _ (List.cons_ne_nil _ _), List.getLast?_cons_of_ne_nil hu]
          at hlast
      obtain ⟨vs, hvs, rfl⟩ := ih (fun w hw => h w (List.mem_cons_of_mem _ hw)) ht hlast'
      have hvs' : vs ≠ [] := by
        rintro rfl
        exact hu rfl
      obtain ⟨v, vs, rfl⟩ := List.exists_cons_of_ne_nil hvs'
      exact ⟨word :: v :: vs, List.forall_mem_cons.mpr ⟨⟨hne, hsolid⟩, hvs⟩, (join_cons_cons ..).symm⟩

theorem squeeze_eq_nil {text : List Char} : squeeze text = [] ↔ words text = [] := by
  constructor
  · intro h
    rw [← words_squeeze, h, words_nil]
  · intro h
    simp [squeeze, h, join]

end LiberNovus.Text

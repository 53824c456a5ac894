import LiberNovus.Reflection.Passes
import LiberNovus.Reflection.Spacing

/-! What the sanitising of a reflection leaves behind. The replacements make no new match of any
pattern, but the white space is put in order only after them, and this can make one.

Proved: the sanitised text is free of every pattern, and stable, exactly when no phrase of the
patterns stands in the text with other white space than single spaces between its words. -/

namespace LiberNovus.Reflection

open Session Text Phrases

/-! ### The table -/

/-- A text that is its own words. -/
structure IsPhrase (literal : List Char) : Prop where
  squeezed : squeeze literal = literal
  nonempty : words literal ≠ []
  small : ∀ word ∈ words literal, ∀ c ∈ word, Small c

instance (literal : List Char) : Decidable (IsPhrase literal) :=
  decidable_of_iff (squeeze literal = literal ∧ words literal ≠ [] ∧
      ∀ word ∈ words literal, ∀ c ∈ word, Small c)
    ⟨fun ⟨hsqueezed, hne, hsmall⟩ => ⟨hsqueezed, hne, hsmall⟩,
      fun ⟨hsqueezed, hne, hsmall⟩ => ⟨hsqueezed, hne, hsmall⟩⟩

theorem IsPhrase.lettered {literal : List Char} (h : IsPhrase literal) : Lettered (words literal) :=
  fun word hword => ⟨(solid_of_mem_words hword).1, h.small word hword⟩

theorem IsPhrase.join_words {literal : List Char} (h : IsPhrase literal) :
    join [' '] (words literal) = literal := h.squeezed

/-- A pass that replaces `p` by `r` does not touch the phrase `q`, unless it is `p`. -/
structure Independent (p r q : List (List Char)) : Prop where
  tail : ∀ w ∈ q.tail, p.head? ≠ some w ∧ r.head? ≠ some w
  replacement : Apart r q
  other : p ≠ q → Apart p q
  itself : Apart p.tail p

instance (p r q : List (List Char)) : Decidable (Independent p r q) :=
  decidable_of_iff ((∀ w ∈ q.tail, p.head? ≠ some w ∧ r.head? ≠ some w) ∧ Apart r q ∧
      (p ≠ q → Apart p q) ∧ Apart p.tail p)
    ⟨fun ⟨htail, hr, hp, hself⟩ => ⟨htail, hr, hp, hself⟩,
      fun ⟨htail, hr, hp, hself⟩ => ⟨htail, hr, hp, hself⟩⟩

theorem table_sound : ∀ rule ∈ replacements,
    (IsPhrase rule.1.toList ∧ IsPhrase rule.2.toList) ∧ ∀ other ∈ replacements,
      Independent (words rule.1.toList) (words rule.2.toList) (words other.1.toList) := by
  decide

/-! ### The loop -/

section Loop

variable [WordTable]

/-- What one pass does to the phrases of the table. -/
theorem exists_pass {text : List Char} {l : List Piece} (h : Divided text l) {rule : String × String}
    (hrule : rule ∈ replacements) :
    ∃ l', Divided (sub rule.1.toList rule.2.toList 0 false text) l' ∧
      (∀ other ∈ replacements, (Occurs key (words other.1.toList) Loose l' ↔
        Occurs key (words other.1.toList) Loose l)) ∧
      (∀ other ∈ replacements, ¬ Occurs key (words other.1.toList) Strict l →
        ¬ Occurs key (words other.1.toList) Strict l') ∧
      ¬ Occurs key (words rule.1.toList) Strict l' := by
  obtain ⟨⟨hp, hr⟩, hindependent⟩ := table_sound rule hrule
  obtain ⟨trail, rfl, hl, htrail⟩ := h
  obtain ⟨l', hrew, hshaped, hsub⟩ :=
    exists_rewrites hp.lettered hp.nonempty hr.lettered hr.nonempty hl htrail
  rw [hp.join_words, hr.join_words] at hsub
  have hgone := hrew.not_occurs hp.nonempty hr.nonempty (hindependent rule hrule).tail
    (hindependent rule hrule).replacement
  refine ⟨l', ⟨trail, hsub, hshaped, htrail⟩, fun other hother => ?_,
    fun other hother hnot => ?_, hgone⟩
  · have hind := hindependent other hother
    have hq := (table_sound other hother).1.1.nonempty
    refine hrew.occurs_iff hp.nonempty hr.nonempty hq hind.tail hind.replacement
      fun m b hm hstrict => ?_
    by_cases heq : words rule.1.toList = words other.1.toList
    · rw [← heq]
      exact occurs_append_self hm hind.itself (fun m hstrict hloose => hloose.2 hstrict) hstrict
    · exact occurs_append (hm ▸ hind.other heq)
  · by_cases heq : words rule.1.toList = words other.1.toList
    · rwa [← heq]
    · have hind := hindependent other hother
      have hq := (table_sound other hother).1.1.nonempty
      rwa [hrew.occurs_iff hp.nonempty hr.nonempty hq hind.tail hind.replacement
        fun m b hm _ => occurs_append (hm ▸ hind.other heq)]

/-- The loop removes what its patterns match, and leaves the rest. -/
theorem exists_replaceAll {rules : List (String × String)} (hrules : rules ⊆ replacements)
    {text : List Char} {l : List Piece} (h : Divided text l) :
    ∃ l', Divided (replaceAll rules text) l' ∧ ∀ other ∈ replacements,
      (Occurs key (words other.1.toList) Loose l' ↔ Occurs key (words other.1.toList) Loose l) ∧
        (other ∈ rules ∨ ¬ Occurs key (words other.1.toList) Strict l →
          ¬ Occurs key (words other.1.toList) Strict l') := by
  induction rules generalizing text l with
  | nil =>
    refine ⟨l, h, fun other _ => ⟨Iff.rfl, fun hcase => ?_⟩⟩
    exact hcase.resolve_left (List.not_mem_nil)
  | cons rule rules ih =>
    obtain ⟨hrule, hrules⟩ := List.cons_subset.mp hrules
    obtain ⟨l₁, hdivided, hloose, hstrict, hgone⟩ := exists_pass h hrule
    obtain ⟨l', hdivided', hl'⟩ := ih hrules hdivided
    refine ⟨l', hdivided', fun other hother => ⟨(hl' other hother).1.trans (hloose other hother),
      fun hcase => (hl' other hother).2 ?_⟩⟩
    rcases hcase with hmem | hnot
    · rcases List.mem_cons.mp hmem with rfl | hmem
      · exact Or.inr hgone
      · exact Or.inl hmem
    · exact Or.inr (hstrict other hother hnot)

/-! ### The result -/

theorem toList_sanitizeText (text : String) :
    (sanitizeText text).toList = squeeze (replaceAll replacements (strip text.toList)) := by
  rw [sanitizeText, strip_collapse]
  split_ifs with h
  · rw [h]
    rfl
  · rw [String.toList_ofList]

/-- A text in which no pattern matches passes the loop. -/
theorem replaceAll_eq_self {rules : List (String × String)} {text : List Char}
    (h : ∀ rule ∈ rules, search rule.1.toList false text = false) : replaceAll rules text = text := by
  induction rules with
  | nil => rfl
  | cons rule rules ih =>
    obtain ⟨hrule, hrules⟩ := List.forall_mem_cons.mp h
    rw [replaceAll, List.foldl_cons, sub_eq_self hrule]
    exact ih hrules

theorem gap_of_spaces {text : List Char} (h : ∀ c ∈ text, isSpace c = true) : Gap text :=
  fun c hc => isWordChar_of_space (h c hc)

/-- White space around the text hides no match. -/
theorem search_strip {literal : List Char} (h : IsPhrase literal) (text : List Char) :
    search literal false (strip text) = search literal false text := by
  obtain ⟨before, after, htext, hbefore, hafter⟩ := exists_strip text
  obtain ⟨trail, hstrip, hl, htrail⟩ := divided_pieces (strip text)
  have hback : search literal false (strip text ++ after) = search literal false (strip text) := by
    have htrail' : Gap (trail ++ after) := List.forall_mem_append.mpr ⟨htrail, gap_of_spaces hafter⟩
    have hshort := search_iff h.lettered h.nonempty hl htrail
    have hlong := search_iff h.lettered h.nonempty hl htrail'
    rw [← List.append_assoc, ← hstrip, h.join_words] at hlong
    rw [← hstrip, h.join_words] at hshort
    rw [Bool.eq_iff_iff, hlong, hshort]
  obtain ⟨u, q, hq⟩ := List.exists_cons_of_ne_nil h.nonempty
  obtain ⟨a, rest, hjoin, ha⟩ := exists_join (hq ▸ h.lettered)
  rw [← hq, h.join_words] at hjoin
  conv_rhs => rw [htext, hjoin, search_gap ha (gap_of_spaces hbefore) (by simp), ← hjoin, hback]

omit [WordTable] in
/-- What stands in front of the first word does not count. -/
theorem starts_loose {q : List (List Char)} {gap gap' word : List Char} {l : List Piece}
    (h : Starts key q Loose (⟨gap, word⟩ :: l)) : Starts key q Loose (⟨gap', word⟩ :: l) := by
  obtain ⟨m, b, hb, hm, hloose⟩ := h
  cases m with
  | nil => exact ⟨[], _, rfl, hm, hloose⟩
  | cons x m =>
    rw [List.cons_append, List.cons.injEq] at hb
    obtain ⟨rfl, rfl⟩ := hb
    exact ⟨⟨gap', word⟩ :: m, b, rfl, hm, hloose⟩

theorem occurs_pieces_spaces {q : List (List Char)} {spaces : List Char} (h : Gap spaces)
    (text : List Char) :
    Occurs key q Loose (pieces (spaces ++ text)) ↔ Occurs key q Loose (pieces text) := by
  induction spaces with
  | nil => rfl
  | cons c spaces ih =>
    obtain ⟨hc, hspaces⟩ := List.forall_mem_cons.mp h
    rw [List.cons_append, pieces, if_neg (by simp [hc]), ← ih hspaces]
    cases pieces (spaces ++ text) with
    | nil => rfl
    | cons x l =>
      rw [occurs_cons, occurs_cons]
      exact or_congr_left ⟨starts_loose, starts_loose⟩

theorem pieces_append_gap {trail : List Char} (h : Gap trail) (text : List Char) :
    pieces (text ++ trail) = pieces text := by
  induction text with
  | nil =>
    induction trail with
    | nil => rfl
    | cons c trail ih =>
      obtain ⟨hc, htrail⟩ := List.forall_mem_cons.mp h
      have hrest := ih htrail
      rw [List.nil_append] at hrest ⊢
      simp [pieces, hc, hrest]
  | cons c text ih => rw [List.cons_append, pieces, pieces, ih]

theorem occurs_strip {q : List (List Char)} (text : List Char) :
    Occurs key q Loose (pieces (strip text)) ↔ Occurs key q Loose (pieces text) := by
  obtain ⟨before, after, htext, hbefore, hafter⟩ := exists_strip text
  conv_rhs => rw [htext, occurs_pieces_spaces (gap_of_spaces hbefore),
    pieces_append_gap (gap_of_spaces hafter)]

/-- What a pattern finds in the sanitised text is what no pass has matched. -/
theorem search_sanitized {rule : String × String} (hrule : rule ∈ replacements) (text : List Char) :
    search rule.1.toList false (squeeze (replaceAll replacements (strip text))) = true ↔
      Occurs key (words rule.1.toList) Loose (pieces text) := by
  have hphrase := (table_sound rule hrule).1.1
  obtain ⟨l, hdivided, hl⟩ :=
    exists_replaceAll (List.Subset.refl replacements) (divided_pieces (strip text))
  obtain ⟨hloose, hgone⟩ := hl rule hrule
  have hstrict := hgone (Or.inl hrule)
  obtain ⟨trail, hcollapse, hshaped, htrail⟩ := hdivided.collapse
  have hsearch := search_iff hphrase.lettered hphrase.nonempty hshaped htrail
  rw [hphrase.join_words, ← hcollapse, occurs_collapse] at hsearch
  rw [← strip_collapse, search_strip hphrase, hsearch, ← occurs_strip, ← hloose]
  constructor
  · rintro ⟨a, b, hab, m, b', hb, hm, hspread⟩
    exact ⟨a, b, hab, m, b', hb, hm, hspread, fun h => hstrict ⟨a, b, hab, m, b', hb, hm, h⟩⟩
  · exact fun h => h.mono fun m hm => hm.1

/-- The sanitising does what it is for, if and only if no phrase of the patterns is spread in the
text by other white space than single spaces. -/
theorem sanitizeText_iff (text : String) : Sanitized (sanitizeText text) ↔
    ∀ rule ∈ replacements, ¬ Occurs key (words rule.1.toList) Loose (pieces text.toList) := by
  have hsearch : ∀ rule ∈ replacements, (search rule.1.toList false (sanitizeText text).toList = false ↔
      ¬ Occurs key (words rule.1.toList) Loose (pieces text.toList)) := by
    intro rule hrule
    rw [toList_sanitizeText, ← search_sanitized hrule, Bool.not_eq_true]
  constructor
  · exact fun h rule hrule => (hsearch rule hrule).mp (h.complete rule hrule)
  · intro h
    have hcomplete := fun rule hrule => (hsearch rule hrule).mpr (h rule hrule)
    refine ⟨hcomplete, ?_⟩
    rw [toList_sanitizeText] at hcomplete
    rw [← String.toList_inj, toList_sanitizeText, toList_sanitizeText, strip_squeeze,
      replaceAll_eq_self hcomplete, squeeze, words_squeeze, ← squeeze]

end Loop

@[reducible] def digitTable : WordTable where
  isAlnum := fun c => isLetter c || (0x30 ≤ c.toNat && c.toNat ≤ 0x39)
  not_space := fun c h => by
    rw [isLetter_of_space h, Bool.false_or]
    simp only [isSpace, Bool.or_eq_true, Bool.and_eq_true, decide_eq_true_eq, beq_iff_eq] at h
    simp only [Bool.and_eq_false_iff, decide_eq_false_iff_not]
    omega

/-- A phrase with two spaces in it is passed over, and then has a single one. -/
theorem two_spaces_hide_phrase :
    ¬ @Sanitized digitTable (@sanitizeText digitTable "это  значит") := by
  let table := digitTable
  intro h
  have hrule : ("это значит", "это может быть связано с") ∈ replacements := List.mem_cons_self
  have htext : "это  значит".toList = ['э', 'т', 'о', ' ', ' ', 'з', 'н', 'а', 'ч', 'и', 'т'] := by simp
  have hliteral : "это значит".toList = ['э', 'т', 'о', ' ', 'з', 'н', 'а', 'ч', 'и', 'т'] := by simp
  have hpieces : pieces "это  значит".toList =
      [⟨[], ['э', 'т', 'о']⟩, ⟨[' ', ' '], ['з', 'н', 'а', 'ч', 'и', 'т']⟩] := by
    rw [htext]
    decide
  have hphrase : words "это значит".toList = [['э', 'т', 'о'], ['з', 'н', 'а', 'ч', 'и', 'т']] := by
    rw [hliteral]
    decide
  have hloose : Occurs key (words "это значит".toList) Loose (pieces "это  значит".toList) := by
    have hspace : isSpace ' ' = true := by decide
    rw [hphrase, hpieces]
    exact ⟨[], _, rfl, _, [], (List.append_nil _).symm, by decide, by simp [Spread, hspace],
      by simp [Strict]⟩
  have hfound := (search_sanitized hrule "это  значит".toList).mpr hloose
  have hnone := h.complete _ hrule
  rw [toList_sanitizeText, hfound] at hnone
  cases hnone

end LiberNovus.Reflection

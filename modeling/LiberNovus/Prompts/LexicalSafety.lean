import LiberNovus.Dialogue.LetterCase
import LiberNovus.Prompts.SampleHeadings
import Mathlib.Data.List.Chain

/-! `validate_prompt_safety`: the structure of the prompt, and the words of what is left of it
when the log of the dreams is cut out.

Proved: the words are judged line by line, and in a built prompt only the sample and the first
words of the two lists can fail. -/

namespace LiberNovus.Prompts

open Text Search Results Session Dialogue

/-! ### The contract -/

def requiredInstructionAnchors : List (List Char) :=
  ["сон не имеет фиксированного значения".toList,
    "мы исследуем, а не интерпретируем окончательно".toList,
    "возможные гипотезы".toList,
    "вопросы важнее выводов".toList,
    "не используйте утверждения типа «это означает»".toList]

def forbiddenPhrases : List (List Char) :=
  ["это означает, что".toList,
    "ваш сон говорит, что".toList,
    "вы точно".toList,
    "главный смысл сна".toList,
    "основное значение сна".toList]

/-- What `placeholder_pattern` has behind the bracket. -/
def placeholderWords : List (List Char) := ["FILL".toList, "MISSING".toList]

/-! ### The check -/

section Check

variable [CaseTable]

/-- The text starts with the letters, in either case. -/
def startsWithLetters : List Char → List Char → Bool
  | [], _ => true
  | _ :: _, [] => false
  | a :: letters, c :: text => CaseTable.sameLetter a c && startsWithLetters letters text

def startsPlaceholder (text : List Char) : Bool := placeholderWords.any (startsWithLetters · text)

def searchPlaceholder : List Char → Bool
  | [] => false
  | c :: text => (c == '[' && startsPlaceholder text) || searchPlaceholder text

def lexicalSafetyOnControlledText (text : List Char) : Bool :=
  let normalized := CaseTable.lower text
  if ¬ requiredInstructionAnchors.any (fun anchor => anchor <:+: normalized) then false
  else if forbiddenPhrases.any (fun phrase => phrase <:+: normalized) then false
  else !searchPlaceholder text

def validatePromptSafety (prompt : List Char) : Except ValueError Bool := do
  let errors ← validatePromptStructure prompt
  if errors ≠ [] then .ok false
  else do
    let dreamStart ← index dreamSection.heading prompt
    let dreamEnd ← index summarySection.heading prompt
    .ok (lexicalSafetyOnControlledText (prompt.take dreamStart ++ prompt.drop dreamEnd))

end Check

/-! ### Letters -/

/-- The characters that the fixed text and the words of a summary are made of. -/
def isBasic (c : Char) : Bool :=
  c.toNat < 0x80 || isLetter c || c == '«' || c == '»' || c == '—' || c == Char.ofNat 0x307

/-- `str.lower` takes basic characters one by one, and without regard to case two characters
of ASCII are the same if they are in lower case. -/
class LawfulLetters [CaseTable] : Prop where
  lower_basic {text : List Char} : (∀ c ∈ text, isBasic c = true) →
    CaseTable.lower text = text.flatMap lowerLetter
  sameLetter_ascii {a c : Char} : a.toNat < 0x80 → c.toNat < 0x80 →
    CaseTable.sameLetter a c = (lowerLetter a == lowerLetter c)

theorem lawful_letters : @LawfulLetters letterCase := @LawfulLetters.mk letterCase (fun _ => rfl) fun _ _ => rfl

section Lines

variable [CaseTable]

/-- The check refuses nothing in the line. -/
structure Harmless (line : List Char) : Prop where
  phrases : ∀ phrase ∈ forbiddenPhrases, ¬ phrase <:+: CaseTable.lower line
  placeholder : searchPlaceholder line = false

theorem startsWithLetters_append {letters : List Char} {c : Char}
    (h : ∀ a ∈ letters, CaseTable.sameLetter a c = false) (x y : List Char) :
    startsWithLetters letters (x ++ c :: y) = startsWithLetters letters x := by
  induction letters generalizing x with
  | nil => rfl
  | cons a letters ih =>
    cases x with
    | nil =>
      rw [List.nil_append, startsWithLetters, startsWithLetters, h a List.mem_cons_self,
        Bool.false_and]
    | cons d x =>
      rw [List.cons_append, startsWithLetters, startsWithLetters,
        ih fun b hb => h b (List.mem_cons_of_mem _ hb)]

/-- Text without a bracket has no placeholder. -/
theorem searchPlaceholder_append {x : List Char} (h : '[' ∉ x) (y : List Char) :
    searchPlaceholder (x ++ y) = searchPlaceholder y := by
  induction x with
  | nil => rfl
  | cons c x ih =>
    rw [List.mem_cons, not_or] at h
    have hc : (c == '[') = false := by simpa using Ne.symm h.1
    rw [List.cons_append, searchPlaceholder, hc, Bool.false_and, Bool.false_or, ih h.2]

theorem searchPlaceholder_eq_false {x : List Char} (h : '[' ∉ x) : searchPlaceholder x = false := by
  have happend := searchPlaceholder_append h []
  rwa [List.append_nil] at happend

variable [LawfulLetters]

/-- A character of ASCII that is in none of the words ends what is compared with them. -/
theorem startsPlaceholder_append {c : Char} (hc : c.toNat < 0x80)
    (h : ∀ word ∈ placeholderWords, ∀ a ∈ word, (lowerLetter a == lowerLetter c) = false)
    (x y : List Char) : startsPlaceholder (x ++ c :: y) = startsPlaceholder x := by
  have hascii : ∀ word ∈ placeholderWords, ∀ a ∈ word, a.toNat < 0x80 :=
    forall_literals [_, _] [_, _] rfl (by decide)
  have hword : ∀ word ∈ placeholderWords,
      startsWithLetters word (x ++ c :: y) = startsWithLetters word x := by
    intro word hword
    refine startsWithLetters_append (fun a ha => ?_) x y
    rw [LawfulLetters.sameLetter_ascii (hascii word hword a ha) hc, h word hword a ha]
  rw [startsPlaceholder, startsPlaceholder, Bool.eq_iff_iff, List.any_eq_true, List.any_eq_true]
  exact exists_congr fun word => and_congr_right fun hmem => by rw [hword word hmem]

omit [CaseTable] [LawfulLetters] in
/-- What ends a word of a placeholder. -/
theorem placeholderWords_ends : ∀ word ∈ placeholderWords, ∀ a ∈ word,
    ∀ c ∈ ['\n', ']', ',', 'C'], (lowerLetter a == lowerLetter c) = false :=
  forall_literals [_, _] [_, _] rfl (by decide)

/-- A placeholder does not reach into the next line. -/
theorem searchPlaceholder_newline (x y : List Char) :
    searchPlaceholder (x ++ '\n' :: y) = (searchPlaceholder x || searchPlaceholder y) := by
  induction x with
  | nil =>
    rw [List.nil_append, searchPlaceholder, searchPlaceholder]
    rfl
  | cons c x ih =>
    rw [List.cons_append, searchPlaceholder, searchPlaceholder, ih,
      startsPlaceholder_append (by decide) fun word hword a ha =>
        placeholderWords_ends word hword a ha _ (by simp), Bool.or_assoc]

theorem searchPlaceholder_unlines (ls : List (List Char)) :
    searchPlaceholder (unlines ls) = false ↔ ∀ l ∈ ls, searchPlaceholder l = false := by
  induction ls with
  | nil => simp [unlines, join, searchPlaceholder]
  | cons l ls ih =>
    cases ls with
    | nil => simp
    | cons l' ls =>
      rw [unlines_cons_cons, searchPlaceholder_newline, Bool.or_eq_false_iff, ih]
      exact (List.forall_mem_cons (p := fun l => searchPlaceholder l = false)).symm

/-! ### Lines -/

variable [LawfulCaseTable]

omit [LawfulLetters] in
theorem lower_unlines (ls : List (List Char)) :
    CaseTable.lower (unlines ls) = unlines (ls.map CaseTable.lower) := by
  induction ls with
  | nil => exact LawfulCaseTable.lower_nil
  | cons l ls ih =>
    cases ls with
    | nil => rw [List.map_singleton, unlines_singleton, unlines_singleton]
    | cons l' ls =>
      rw [unlines_cons_cons, LawfulCaseTable.lower_space _ _ (by decide), ih, List.map_cons,
        List.map_cons, List.map_cons, unlines_cons_cons]

omit [CaseTable] [LawfulCaseTable] [LawfulLetters] in
theorem phrase_lines : ∀ phrase ∈ requiredInstructionAnchors ++ forbiddenPhrases,
    phrase ≠ [] ∧ '\n' ∉ phrase :=
  forall_literals [_, _, _, _, _, _, _, _, _, _] [_, _, _, _, _, _, _, _, _, _] rfl (by decide)

omit [LawfulLetters] in
theorem phrase_unlines {phrase : List Char}
    (h : phrase ∈ requiredInstructionAnchors ++ forbiddenPhrases) (ls : List (List Char)) :
    phrase <:+: CaseTable.lower (unlines ls) ↔ ∃ l ∈ ls, phrase <:+: CaseTable.lower l := by
  rw [lower_unlines, infix_unlines_iff (phrase_lines phrase h).1 (phrase_lines phrase h).2]
  simp only [List.mem_map, exists_exists_and_eq_and]

/-- Text with an anchor passes the check if and only if its lines are harmless. -/
theorem lexicalSafety_unlines {ls : List (List Char)} {anchor l : List Char}
    (hanchor : anchor ∈ requiredInstructionAnchors) (hl : l ∈ ls)
    (hin : anchor <:+: CaseTable.lower l) :
    lexicalSafetyOnControlledText (unlines ls) = true ↔ ∀ l ∈ ls, Harmless l := by
  have hany : requiredInstructionAnchors.any
      (fun anchor => anchor <:+: CaseTable.lower (unlines ls)) = true :=
    List.any_eq_true.mpr ⟨anchor, hanchor, decide_eq_true
      ((phrase_unlines (List.mem_append_left _ hanchor) ls).mpr ⟨l, hl, hin⟩)⟩
  have hphrases : forbiddenPhrases.any (fun phrase => phrase <:+: CaseTable.lower (unlines ls)) = true ↔
      ∃ phrase ∈ forbiddenPhrases, ∃ l ∈ ls, phrase <:+: CaseTable.lower l := by
    rw [List.any_eq_true]
    refine exists_congr fun phrase => and_congr_right fun hmem => ?_
    rw [decide_eq_true_eq, phrase_unlines (List.mem_append_right _ hmem)]
  rw [lexicalSafetyOnControlledText]
  simp only [hany, not_true_eq_false, if_false]
  constructor
  · intro h l hl
    split at h
    · cases h
    · next hno =>
      refine ⟨fun phrase hmem hin => hno (hphrases.mpr ⟨phrase, hmem, l, hl, hin⟩), ?_⟩
      rw [Bool.not_eq_true'] at h
      exact (searchPlaceholder_unlines ls).mp h l hl
  · intro h
    have hno : ¬ forbiddenPhrases.any (fun phrase => phrase <:+: CaseTable.lower (unlines ls)) = true := by
      rw [hphrases]
      rintro ⟨phrase, hmem, l, hl, hin⟩
      exact (h l hl).phrases phrase hmem hin
    rw [if_neg hno, Bool.not_eq_true', searchPlaceholder_unlines]
    exact fun l hl => (h l hl).placeholder

end Lines

/-! ### The lines that are fixed -/

section Fixed

variable [CaseTable] [LawfulLetters]

omit [CaseTable] [LawfulLetters] in
theorem lowerLetter_ascii {c : Char} (h : c.toNat < 0x80) : ∀ d ∈ lowerLetter c, d.toNat < 0x80 := by
  have hlatin : ∀ n < 0x5b, (Char.ofNat (n + 0x20)).toNat < 0x80 := by decide
  by_cases hc : 0x41 ≤ c.toNat ∧ c.toNat ≤ 0x5a
  · rw [lowerLetter, if_pos hc]
    exact List.forall_mem_singleton.mpr (hlatin _ (by omega))
  · rw [lowerLetter, if_neg hc, if_neg (by omega), if_neg (by omega), if_neg (by omega),
      if_neg (by omega)]
    exact List.forall_mem_singleton.mpr h

omit [CaseTable] [LawfulLetters] in
theorem phrase_starts : ∀ phrase ∈ forbiddenPhrases,
    phrase.head?.any (fun c => 0x80 ≤ c.toNat) = true :=
  forall_literals [_, _, _, _, _] [_, _, _, _, _] rfl (by decide)

omit [CaseTable] [LawfulLetters] in
/-- Text of ASCII is passed over when a phrase is looked for. -/
theorem phrase_append_iff {phrase : List Char} (h : phrase ∈ forbiddenPhrases) {x : List Char}
    (hx : ∀ c ∈ x, c.toNat < 0x80) (y : List Char) : phrase <:+: x ++ y ↔ phrase <:+: y := by
  have hstart := phrase_starts phrase h
  cases phrase with
  | nil => cases hstart
  | cons c phrase =>
    refine infix_cons_append_iff fun hc => ?_
    have hlow := hx c hc
    have hhigh : 0x80 ≤ c.toNat := of_decide_eq_true hstart
    omega

/-- No phrase is in text of ASCII. -/
theorem phrases_ascii {l : List Char} (h : ∀ c ∈ l, c.toNat < 0x80) :
    ∀ phrase ∈ forbiddenPhrases, ¬ phrase <:+: CaseTable.lower l := by
  intro phrase hmem hin
  have hlower : ∀ c ∈ l.flatMap lowerLetter, c.toNat < 0x80 := by
    intro c hc
    obtain ⟨d, hd, hc⟩ := List.mem_flatMap.mp hc
    exact lowerLetter_ascii (h d hd) c hc
  rw [LawfulLetters.lower_basic fun c hc => by simp [isBasic, h c hc],
    ← List.append_nil (l.flatMap lowerLetter), phrase_append_iff hmem hlower] at hin
  exact (phrase_lines phrase (List.mem_append_right _ hmem)).1 (List.infix_nil.mp hin)

theorem harmless_printed {l : List Char} (h : Printed l) : Harmless l := by
  refine ⟨phrases_ascii fun c hc => ?_, searchPlaceholder_eq_false fun hc => (h _ hc).2.2.2 rfl⟩
  have := (h c hc).2.1
  omega

/-- A piece of each phrase. -/
def phraseMarks : List (List Char) :=
  [['т', ',', ' ', 'ч'], ['в', 'ы', ' ', 'т'], ['с', 'л', ' ', 'с', 'н', 'а'],
    ['и', 'е', ' ', 'с', 'н', 'а']]

/-- The line has basic characters, no bracket, and none of the pieces in lower case. -/
def isUnmarked (l : List Char) : Bool :=
  l.all isBasic && '[' ∉ l && phraseMarks.all fun mark => ¬ mark <:+: l.flatMap lowerLetter

def Unmarked (l : List Char) : Prop := isUnmarked l = true

instance (l : List Char) : Decidable (Unmarked l) := instDecidableEqBool (isUnmarked l) true

omit [CaseTable] [LawfulLetters] in
theorem exists_mark : ∀ phrase ∈ forbiddenPhrases, ∃ mark ∈ phraseMarks, mark <:+: phrase :=
  forall_literals [_, _, _, _, _] [_, _, _, _, _] rfl (by decide)

theorem Unmarked.harmless {l : List Char} (h : Unmarked l) : Harmless l := by
  simp only [Unmarked, isUnmarked, Bool.and_eq_true, List.all_eq_true, decide_eq_true_eq] at h
  obtain ⟨⟨hbasic, hsign⟩, hmarks⟩ := h
  refine ⟨fun phrase hmem hin => ?_, searchPlaceholder_eq_false hsign⟩
  obtain ⟨mark, hmark, hpiece⟩ := exists_mark phrase hmem
  rw [LawfulLetters.lower_basic hbasic] at hin
  exact hmarks mark hmark (hpiece.trans hin)

omit [CaseTable] [LawfulLetters] in
theorem unmarked_headings : ∀ spec ∈ sections, Unmarked spec.heading := by
  have hheadings : ∀ heading ∈ sections.map SectionSpec.heading, Unmarked heading :=
    forall_literals [_, _, _, _, _, _] [_, _, _, _, _, _] rfl (by decide)
  exact List.forall_mem_map.mp hheadings

set_option maxRecDepth 2000 in
omit [CaseTable] [LawfulLetters] in
theorem unmarked_instructionLines : ∀ l ∈ instructionLines, Unmarked l :=
  forall_literals _ [_, _, _, _, _, _, _, _, _, _, _, _, _] rfl (by decide)

set_option maxRecDepth 2000 in
omit [CaseTable] [LawfulLetters] in
theorem unmarked_frameworkLines : ∀ l ∈ frameworkLines, Unmarked l :=
  forall_literals _ [_, _, _, _, _, _, _] rfl (by decide)

set_option maxRecDepth 2000 in
omit [CaseTable] [LawfulLetters] in
theorem unmarked_outputFormatLines : ∀ l ∈ outputFormatLines, Unmarked l :=
  forall_literals _ [_, _, _, _, _, _, _, _, _, _, _, _, _, _] rfl (by decide)

theorem harmless_promptPrefix : Harmless promptPrefix := by
  have hascii : ∀ c ∈ promptPrefix, c.toNat < 0x80 :=
    of_literal (P := fun l => ∀ c ∈ l, c.toNat < 0x80) rfl (by decide)
  obtain ⟨rest, hrest, hsign⟩ : ∃ rest, promptPrefix = '[' :: 'C' :: rest ∧ '[' ∉ 'C' :: rest :=
    of_literal (P := fun l => ∃ rest, l = '[' :: 'C' :: rest ∧ '[' ∉ 'C' :: rest) rfl
      ⟨_, rfl, by decide⟩
  have hstart := startsPlaceholder_append (c := 'C') (by decide)
    (fun word hword a ha => placeholderWords_ends word hword a ha _ (by simp)) [] rest
  rw [List.nil_append] at hstart
  refine ⟨phrases_ascii hascii, ?_⟩
  rw [hrest, searchPlaceholder, hstart, searchPlaceholder_eq_false hsign]
  rfl

theorem harmless_nil : Harmless [] := harmless_printed (by decide)

end Fixed

/-! ### The lines that are not -/

section Summary

variable [CaseTable] [LawfulLetters] {words : List String}

/-- A space is behind a comma or a colon. -/
def Listed (a b : Char) : Prop := b = ' ' → a = ',' ∨ a = ':'

instance : DecidableRel Listed := fun _ _ => inferInstanceAs (Decidable (_ → _))

omit [CaseTable] [LawfulLetters] in
theorem not_listed : ∀ phrase ∈ forbiddenPhrases, ¬ phrase.IsChain Listed :=
  forall_literals [_, _, _, _, _] [_, _, _, _, _] rfl (by decide)

omit [CaseTable] [LawfulLetters] in
theorem Lowered.ne {c d : Char} (h : Lowered c) (hd : isLetter d = false ∧ d ≠ Char.ofNat 0x307) :
    c ≠ d := by
  rintro rfl
  rcases h.1 with hc | hc
  · exact absurd hc (by rw [hd.1]; decide)
  · exact hd.2 hc

omit [CaseTable] [LawfulLetters] in
theorem isBasic_of_lowered {c : Char} (h : Lowered c) : isBasic c = true := by
  rcases h.1 with hc | rfl
  · simp [isBasic, hc]
  · decide

omit [CaseTable] [LawfulLetters] in
theorem listed_of_lowered {word : List Char} (h : ∀ c ∈ word, Lowered c) : word.IsChain Listed := by
  induction word with
  | nil => exact .nil
  | cons c word ih =>
    refine (ih fun d hd => h d (List.mem_cons_of_mem _ hd)).cons fun d hd hspace => ?_
    exact absurd hspace ((h d (List.mem_cons_of_mem _ (List.mem_of_head? hd))).ne (by decide))

omit [CaseTable] [LawfulLetters] in
theorem listed_join {parts : List (List Char)} (h : ∀ part ∈ parts, ∀ c ∈ part, Lowered c) :
    (join ", ".toList parts).IsChain Listed ∧ (join ", ".toList parts).head? ≠ some ' ' := by
  have hspace : ∀ {c}, Lowered c → c ≠ ' ' := fun hc => hc.ne (by decide)
  induction parts with
  | nil => exact ⟨.nil, by simp [join]⟩
  | cons part parts ih =>
    have hpart := h part List.mem_cons_self
    have hchain := listed_of_lowered hpart
    have hhead : part.head? ≠ some ' ' := fun hc => hspace (hpart _ (List.mem_of_head? hc)) rfl
    obtain ⟨hrest, hrestHead⟩ := ih fun p hp => h p (List.mem_cons_of_mem _ hp)
    cases parts with
    | nil =>
      rw [join, List.intercalate_singleton]
      exact ⟨hchain, hhead⟩
    | cons part' parts =>
      have hjoin : join ", ".toList (part :: part' :: parts) =
          part ++ ',' :: ' ' :: join ", ".toList (part' :: parts) := by
        rw [join, List.intercalate_cons_cons, List.append_assoc]
        rfl
      have htail : (',' :: ' ' :: join ", ".toList (part' :: parts)).IsChain Listed :=
        (hrest.cons fun d hd hd' => absurd (hd' ▸ hd) hrestHead).cons (by simp [Listed])
      rw [hjoin]
      refine ⟨hchain.append htail ?_, ?_⟩
      · rintro c - d hd hd'
        cases hd
        exact absurd hd' (by decide)
      · cases part with
        | nil => simp
        | cons c part => simpa using hhead

omit [CaseTable] [LawfulLetters] in
theorem listed_formatList (h : ∀ v ∈ words, ∀ c ∈ v.toList, Lowered c) :
    (formatList words).IsChain Listed ∧ (formatList words).head? = some '[' := by
  rw [formatList]
  split
  · exact ⟨by decide, rfl⟩
  · have hparts : ∀ part ∈ words.map String.toList, ∀ c ∈ part, Lowered c := by
      intro part hp
      obtain ⟨v, hv, rfl⟩ := List.mem_map.mp hp
      exact h v hv
    obtain ⟨hjoin, hhead⟩ := listed_join hparts
    have hclose : (join ", ".toList (words.map String.toList) ++ [']']).IsChain Listed :=
      hjoin.append (.singleton _) fun c _ d hd hd' => by
        cases hd
        exact absurd hd' (by decide)
    refine ⟨hclose.cons fun d hd hd' => ?_, rfl⟩
    rw [List.head?_append, hd'] at hd
    cases hjoin' : (join ", ".toList (words.map String.toList)).head? with
    | none =>
      rw [hjoin'] at hd
      exact absurd hd (by decide)
    | some c =>
      rw [hjoin'] at hd hhead
      exact absurd hd hhead

structure IsLabel (label : List Char) : Prop where
  listed : label.IsChain Listed
  letters : ∀ c ∈ label, c.toNat < 0x80 ∧ lowerLetter c = [c]
  noSign : '[' ∉ label

omit [CaseTable] [LawfulLetters] in
theorem keySymbols_isLabel : IsLabel "key_symbols: ".toList := ⟨by decide, by decide, by decide⟩

omit [CaseTable] [LawfulLetters] in
theorem recurringWords_isLabel : IsLabel "recurring_words: ".toList :=
  ⟨by decide, by decide, by decide⟩

/-- No phrase is in the line of a list. -/
theorem phrases_list {label : List Char} (hlabel : IsLabel label)
    (h : ∀ v ∈ words, ∀ c ∈ v.toList, Lowered c) :
    ∀ phrase ∈ forbiddenPhrases, ¬ phrase <:+: CaseTable.lower (label ++ formatList words) := by
  have hlist : ∀ c ∈ formatList words, isBasic c = true ∧ lowerLetter c = [c] :=
    forall_mem_formatList (by decide) fun v hv c hc => ⟨isBasic_of_lowered (h v hv c hc),
      (h v hv c hc).2⟩
  have hline : ∀ c ∈ label ++ formatList words, isBasic c = true ∧ lowerLetter c = [c] := by
    rw [List.forall_mem_append]
    exact ⟨fun c hc => ⟨by simp [isBasic, (hlabel.letters c hc).1], (hlabel.letters c hc).2⟩, hlist⟩
  have hlower : CaseTable.lower (label ++ formatList words) = label ++ formatList words := by
    rw [LawfulLetters.lower_basic fun c hc => (hline c hc).1,
      List.flatMap_congr fun c hc => (hline c hc).2, List.flatMap_singleton']
  obtain ⟨hformat, hhead⟩ := listed_formatList h
  have hchain : (label ++ formatList words).IsChain Listed :=
    hlabel.listed.append hformat fun c _ d hd hd' => by
      rw [hhead] at hd
      cases hd
      exact absurd hd' (by decide)
  intro phrase hmem hin
  rw [hlower] at hin
  obtain ⟨a, b, hab⟩ := hin
  rw [← hab] at hchain
  exact not_listed phrase hmem hchain.left_of_append.right_of_append

omit [LawfulLetters] in
theorem searchPlaceholder_bracket {x : List Char} (h : '[' ∉ x) :
    searchPlaceholder ('[' :: x) = startsPlaceholder x := by
  rw [searchPlaceholder, searchPlaceholder_eq_false h, Bool.or_false]
  rfl

/-- The bracket of a list is in front of its first word. -/
theorem searchPlaceholder_list {label : List Char} (hlabel : IsLabel label)
    (h : ∀ v ∈ words, ∀ c ∈ v.toList, Lowered c) :
    searchPlaceholder (label ++ formatList words) = false ↔
      ∀ word ∈ words.head?, startsPlaceholder word.toList = false := by
  have hends : ∀ c ∈ [']', ','], ∀ x y, startsPlaceholder (x ++ c :: y) = startsPlaceholder x := by
    intro c hc x y
    have hmem : c ∈ ['\n', ']', ',', 'C'] := by simp at hc ⊢; tauto
    have hlow : c.toNat < 0x80 := (show ∀ c ∈ [']', ','], c.toNat < 0x80 by decide) c hc
    exact startsPlaceholder_append hlow
      (fun word hword a ha => placeholderWords_ends word hword a ha c hmem) x y
  have hclose := hends ']' (by simp)
  have hcomma := hends ',' (by simp)
  rw [searchPlaceholder_append hlabel.noSign, formatList]
  cases words with
  | nil =>
    have hstart : startsPlaceholder [']'] = false := hclose [] []
    have hsearch : searchPlaceholder "[]".toList = false :=
      (searchPlaceholder_bracket (x := [']']) (by decide)).trans hstart
    rw [if_pos rfl]
    exact iff_of_true hsearch (by simp)
  | cons v vs =>
    have hparts : ∀ part ∈ (v :: vs).map String.toList, ∀ c ∈ part, c ≠ '[' := by
      intro part hp
      obtain ⟨w, hw, rfl⟩ := List.mem_map.mp hp
      exact fun c hc => (h w hw c hc).ne (by decide)
    have hsign : '[' ∉ join ", ".toList ((v :: vs).map String.toList) ++ [']'] := by
      rw [List.mem_append, not_or]
      exact ⟨fun hc => forall_mem_join (by decide) hparts _ hc rfl, by decide⟩
    have hstart : startsPlaceholder (join ", ".toList ((v :: vs).map String.toList) ++ [']']) =
        startsPlaceholder v.toList := by
      cases vs with
      | nil =>
        rw [List.map_singleton, join, List.intercalate_singleton]
        exact hclose v.toList []
      | cons w vs =>
        rw [List.map_cons, List.map_cons, join, List.intercalate_cons_cons, List.append_assoc,
          List.append_assoc]
        exact hcomma v.toList _
    rw [if_neg (List.cons_ne_nil _ _), List.cons_append, searchPlaceholder_bracket hsign, hstart]
    simp

/-- The lists can only fail by their first words. -/
theorem harmless_list {label : List Char} (hlabel : IsLabel label)
    (h : ∀ v ∈ words, ∀ c ∈ v.toList, Lowered c) : Harmless (label ++ formatList words) ↔
      ∀ word ∈ words.head?, startsPlaceholder word.toList = false := by
  rw [← searchPlaceholder_list hlabel h]
  exact ⟨fun hline => hline.placeholder, fun hline => ⟨phrases_list hlabel h, hline⟩⟩

variable [LawfulCaseTable]

/-- The line of the sample fails if the sample does. -/
theorem harmless_sample (sample : List Char) :
    Harmless (sampleLabel ++ sample) ↔ Harmless sample := by
  have hlabel : CaseTable.lower (sampleLabel ++ sample) = sampleLabel ++ CaseTable.lower sample := by
    have hsplit : sampleLabel = "raw_text_sample:".toList ++ [' '] := by decide
    have hletters : ∀ c ∈ "raw_text_sample:".toList, isBasic c = true ∧ lowerLetter c = [c] := by decide
    simp only [hsplit, List.append_assoc, List.singleton_append]
    rw [LawfulCaseTable.lower_space _ _ (by decide),
      LawfulLetters.lower_basic fun c hc => (hletters c hc).1,
      List.flatMap_congr fun c hc => (hletters c hc).2, List.flatMap_singleton']
  have hphrase : ∀ phrase ∈ forbiddenPhrases,
      (phrase <:+: CaseTable.lower (sampleLabel ++ sample) ↔ phrase <:+: CaseTable.lower sample) :=
    fun phrase hmem => hlabel ▸ phrase_append_iff hmem
      (of_literal (P := fun l => ∀ c ∈ l, c.toNat < 0x80) rfl (by decide)) _
  have hsearch : searchPlaceholder (sampleLabel ++ sample) = searchPlaceholder sample :=
    searchPlaceholder_append (of_literal (P := ('[' ∉ ·)) rfl (by decide)) sample
  constructor
  · intro h
    exact ⟨fun phrase hmem hin => h.phrases phrase hmem ((hphrase phrase hmem).mpr hin),
      hsearch ▸ h.placeholder⟩
  · intro h
    exact ⟨fun phrase hmem hin => h.phrases phrase hmem ((hphrase phrase hmem).mp hin),
      hsearch.symm ▸ h.placeholder⟩

end Summary

end LiberNovus.Prompts

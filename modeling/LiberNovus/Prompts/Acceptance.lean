import LiberNovus.Prompts.SummarySection
import Mathlib.Data.List.Dedup

/-! Which built prompts the validator accepts, for the summary that is computed from the dreams.
The texts have to be single lines without the headings of later sections, and so has the sample. -/

namespace LiberNovus.Prompts

open Text Search Results Session

/-! ### Words -/

section Words

variable [CharTable]

/-- A letter in lower case, or the dot that a capital one leaves. -/
def Lowered (c : Char) : Prop :=
  (isLetter c = true ∨ c = Char.ofNat 0x307) ∧ lowerLetter c = [c]

omit [CharTable] in
theorem lowered_lowerLetter {c : Char} (h : isLetter c = true) : ∀ d ∈ lowerLetter c, Lowered d := by
  have hlatin : ∀ n < 0x5b, 0x41 ≤ n → isLetter (Char.ofNat (n + 0x20)) = true ∧
      lowerLetter (Char.ofNat (n + 0x20)) = [Char.ofNat (n + 0x20)] := by decide
  have hcyrillic : ∀ n < 0x20, isLetter (Char.ofNat (0x410 + n + 0x20)) = true ∧
      lowerLetter (Char.ofNat (0x410 + n + 0x20)) = [Char.ofNat (0x410 + n + 0x20)] := by decide
  have hothers : (isLetter 'ё' = true ∧ lowerLetter 'ё' = ['ё']) ∧
      (isLetter 'i' = true ∧ lowerLetter 'i' = ['i']) ∧
      lowerLetter (Char.ofNat 0x307) = [Char.ofNat 0x307] ∧
      isLetter 'k' = true ∧ lowerLetter 'k' = ['k'] := by decide
  have hsingle : ∀ {d}, isLetter d = true ∧ lowerLetter d = [d] → ∀ e ∈ [d], Lowered e := by
    intro d hd e he
    rw [List.mem_singleton.mp he]
    exact ⟨.inl hd.1, hd.2⟩
  obtain ⟨hyo, hi, hdot, hk⟩ := hothers
  by_cases h₁ : 0x41 ≤ c.toNat ∧ c.toNat ≤ 0x5a
  · rw [lowerLetter, if_pos h₁]
    exact hsingle (hlatin _ (by omega) h₁.1)
  by_cases h₂ : 0x410 ≤ c.toNat ∧ c.toNat ≤ 0x42f
  · obtain ⟨n, hn⟩ := Nat.exists_eq_add_of_le h₂.1
    rw [lowerLetter, if_neg h₁, if_pos h₂, hn]
    exact hsingle (hcyrillic n (by omega))
  by_cases h₃ : c.toNat = 0x401
  · rw [lowerLetter, if_neg h₁, if_neg h₂, if_pos h₃]
    exact hsingle hyo
  by_cases h₄ : c.toNat = 0x130
  · rw [lowerLetter, if_neg h₁, if_neg h₂, if_neg h₃, if_pos h₄]
    exact List.forall_mem_cons.mpr ⟨⟨.inl hi.1, hi.2⟩, List.forall_mem_singleton.mpr ⟨.inr rfl, hdot⟩⟩
  by_cases h₅ : c.toNat = 0x212a
  · rw [lowerLetter, if_neg h₁, if_neg h₂, if_neg h₃, if_neg h₄, if_pos h₅]
    exact hsingle hk
  · have hself : lowerLetter c = [c] := by
      rw [lowerLetter, if_neg h₁, if_neg h₂, if_neg h₃, if_neg h₄, if_neg h₅]
    rw [hself]
    exact hsingle ⟨h, hself⟩

omit [CharTable] in
/-- A letter is neither a boundary nor the sign of a heading. -/
theorem Lowered.quiet {c : Char} (h : Lowered c) : isBreak c = false ∧ c ≠ '#' := by
  rcases h.1 with hc | rfl
  · simp only [isLetter, Bool.or_eq_true, Bool.and_eq_true, decide_eq_true_eq, beq_iff_eq] at hc
    constructor
    · simp only [isBreak, Bool.or_eq_false_iff, Bool.and_eq_false_iff, decide_eq_false_iff_not,
        beq_eq_false_iff_ne]
      omega
    · rintro rfl
      exact absurd hc (by decide)
  · decide

theorem lowered_of_tokenize {text v : String} (h : v ∈ tokenize text) : ∀ c ∈ v.toList, Lowered c := by
  obtain ⟨word, hword, rfl⟩ := List.mem_map.mp (List.mem_filter.mp h).1
  have hletters := (List.mem_filter.mp hword).2
  simp only [decide_eq_true_eq] at hletters
  rw [String.toList_ofList]
  intro c hc
  obtain ⟨d, hd, hc⟩ := List.mem_flatMap.mp hc
  exact lowered_lowerLetter (List.all_eq_true.mp hletters.2 d hd) c hc

omit [CharTable] in
theorem mem_of_rankWords {words : Counter} {v : String} (h : v ∈ rankWords words) :
    v ∈ words.map Prod.fst := by
  obtain ⟨item, hitem, rfl⟩ := List.mem_map.mp h
  exact List.mem_map_of_mem ((List.mem_insertionSort _).mp hitem)

omit [CharTable] in
theorem mem_of_counter {tokens : List String} {v : String} (h : v ∈ (counter tokens).map Prod.fst) :
    v ∈ tokens := by
  obtain ⟨item, hitem, rfl⟩ := List.mem_map.mp h
  obtain ⟨word, hword, rfl⟩ := List.mem_map.mp hitem
  exact List.mem_dedup.mp hword

/-- The words of a summary come from the texts. -/
theorem lowered_keySymbols (dreams : List Dream) :
    ∀ v ∈ (summarize dreams).keySymbols, ∀ c ∈ v.toList, Lowered c := by
  intro v hv
  have hv := mem_of_counter (mem_of_rankWords (List.mem_of_mem_take hv))
  obtain ⟨tokens, htokens, hv⟩ := List.mem_flatten.mp hv
  obtain ⟨dream, -, rfl⟩ := List.mem_map.mp htokens
  exact lowered_of_tokenize hv

theorem lowered_recurringWords (dreams : List Dream) :
    ∀ v ∈ (summarize dreams).recurringWords, ∀ c ∈ v.toList, Lowered c := by
  intro v hv
  have hv := mem_of_rankWords hv
  rw [List.map_map] at hv
  obtain ⟨item, hitem, rfl⟩ := List.mem_map.mp hv
  have hv := mem_of_counter (List.mem_map_of_mem (f := Prod.fst) (List.mem_filter.mp hitem).1)
  obtain ⟨tokens, htokens, hv⟩ := List.mem_flatMap.mp hv
  obtain ⟨dream, -, rfl⟩ := List.mem_map.mp htokens
  exact lowered_of_tokenize (List.mem_dedup.mp hv)

end Words

/-! ### The sample -/

/-- The sample as it stands in the prompt. -/
def sampleText (content : SummaryContent) : List Char := (content.rawTextSample.getD "N/A").toList

section Sample

variable [CharTable]

/-- The sample is the start of the texts with spaces between them, if they are not empty. -/
theorem sampleText_summarize (dreams : List Dream) :
    sampleText (summarize dreams) = "N/A".toList ∨ sampleText (summarize dreams) ≠ [] ∧
      sampleText (summarize dreams) =
        (join [' '] ((dreams.take rawTextDreamLimit).map fun dream => dream.text.toList)).take
          rawTextCharLimit := by
  have hjoin : (String.intercalate " " ((dreams.take rawTextDreamLimit).map Dream.text)).toList =
      join [' '] ((dreams.take rawTextDreamLimit).map fun dream => dream.text.toList) := by
    rw [String.toList_intercalate, List.map_map]
    rfl
  simp only [sampleText, summarize]
  split
  · exact .inl rfl
  · next hne =>
    right
    rw [Option.getD_some, String.toList_ofList, hjoin]
    refine ⟨?_, rfl⟩
    intro hnil
    rw [List.take_eq_nil_iff] at hnil
    rcases hnil with hlimit | hnil
    · exact absurd hlimit (by decide)
    · exact hne (String.toList_eq_nil_iff.mp (hjoin.trans hnil))

theorem sampleText_ne_nil (dreams : List Dream) : sampleText (summarize dreams) ≠ [] := by
  rcases sampleText_summarize dreams with h | ⟨h, -⟩
  · rw [h]
    decide
  · exact h

theorem spaced_sampleText {dreams : List Dream}
    (h : ∀ dream ∈ dreams, Single dream.text.toList) : Spaced (sampleText (summarize dreams)) := by
  rcases sampleText_summarize dreams with hs | ⟨-, hs⟩
  · rw [hs]
    exact spaced_of_oneLine (Quiet.oneLine (by decide))
  · rw [hs]
    refine (spaced_join fun t ht => ?_).take _
    obtain ⟨dream, hdream, rfl⟩ := List.mem_map.mp ht
    exact h dream (List.mem_of_mem_take hdream)

end Sample

/-! ### The blocks -/

section Blocks

variable {entry : DreamEntry}

theorem dreamMarker_marker (entry : DreamEntry) :
    dreamMarker (marker entry) = some (toString entry.index).toList := by
  have hdigits : ∀ c ∈ (toString entry.index).toList, (decimalValue c).isSome = true := by
    intro c hc
    rw [Nat.toString_eq_ofList_toDigits, String.toList_ofList] at hc
    rw [decimalValue_of_isDigit (Nat.isDigit_of_mem_toDigits (by decide) (by decide) hc)]
    rfl
  have hbracket : (decimalValue ']').isSome = false := by decide
  have hsplit : marker entry = "[DREAM ".toList ++ ((toString entry.index).toList ++ [']']) :=
    List.append_assoc _ _ _
  have hrest : (marker entry).drop "[DREAM ".length = (toString entry.index).toList ++ [']'] := by
    rw [hsplit, ← String.length_toList]
    exact List.drop_left
  have htake : ((toString entry.index).toList ++ [']']).takeWhile
      (fun c => (decimalValue c).isSome) = (toString entry.index).toList := by
    rw [List.takeWhile_append_of_pos hdigits, List.takeWhile_cons_of_neg (by simp [hbracket]),
      List.append_nil]
  have hpre : "[DREAM ".toList <+: marker entry := hsplit ▸ List.prefix_append _ _
  simp only [dreamMarker, hrest, htake]
  rw [if_pos ⟨hpre, repr_int_ne_nil entry.index, by rw [List.drop_left]⟩]

/-- The three lines of a block with a single line of text. -/
theorem splitlines_single {x : List Char} (hs : Stamped entry) (hx : OneLine x)
    (ht : entry.text.toList = x ∨ entry.text.toList = x ++ ['\r']) : splitlines (blockText entry) =
      [marker entry, "text: ".toList ++ x, "timestamp: ".toList ++ entry.timestamp.toList] := by
  have htext : OneLine ("text: ".toList ++ x) := (Quiet.oneLine (by decide)).append hx
  have hlast : splitlines ("timestamp: ".toList ++ entry.timestamp.toList) =
      ["timestamp: ".toList ++ entry.timestamp.toList] := splitlines_oneLine hs.quiet.oneLine (by simp)
  have hmarker : ∀ t, splitlines (marker entry ++ '\n' :: t) = marker entry :: splitlines t := by
    intro t
    rw [splitlines_append (quiet_marker entry).oneLine rfl, afterBreak, if_neg (by simp)]
  rw [blockText_eq, lead, List.append_assoc, List.cons_append, hmarker, ← List.append_assoc]
  rcases ht with ht | ht
  · rw [ht, splitlines_append htext rfl, afterBreak, if_neg (by simp), hlast]
  · rw [ht, ← List.append_assoc, List.append_assoc, List.singleton_append, splitlines_append htext rfl,
      afterBreak, if_pos ⟨rfl, rfl⟩, List.tail_cons, hlast]

/-- A single line of text passes the check of its block. -/
theorem validateDreamBlock_single (hs : Stamped entry) (ht : Single entry.text.toList)
    (hindex : entry.index < 10 ^ maxStrDigits) :
    validateDreamBlock entry.index (blockText entry) = .ok none := by
  obtain ⟨x, hx, ht⟩ := ht
  refine validateDreamBlock_eq_ok.mpr ⟨_, _, _, _, splitlines_single hs hx ht,
    dreamMarker_marker entry, ?_, List.prefix_append _ _, List.prefix_append _ _⟩
  rw [intOfDigits_toString, if_pos hindex]

/-- Entries that are counted from `i` pass the check from `i` on. -/
theorem validateDreamBlocks_single (dreams : List Dream) (i : ℕ)
    (h : ∀ dream ∈ dreams, Single dream.text.toList)
    (hcount : i + dreams.length < 10 ^ maxStrDigits) :
    validateDreamBlocks (i + 1) ((dreams.zipIdx i).map fun (dream, j) =>
      blockText ⟨j + 1, dream.text, formatDatetime (some dream.createdAt)⟩) = .ok none := by
  induction dreams generalizing i with
  | nil => rfl
  | cons dream dreams ih =>
    rw [List.length_cons] at hcount
    rw [List.zipIdx_cons, List.map_cons, validateDreamBlocks_cons]
    have hindex : i + 1 < 10 ^ maxStrDigits := by omega
    exact ⟨validateDreamBlock_single ⟨_, rfl⟩ (h dream List.mem_cons_self) hindex,
      ih (i + 1) (fun d hd => h d (List.mem_cons_of_mem _ hd)) (by omega)⟩

end Blocks

/-! ### The agreement -/

/-- The texts are single lines, without a heading of a section behind theirs; the sample has none
either, and it does not start with a carriage return. -/
structure Fits (summary : SessionSummary) (dreams : List Dream) : Prop where
  single : ∀ dream ∈ dreams, Single dream.text.toList
  texts : ∀ spec ∈ sections.drop 2, ∀ dream ∈ dreams, ¬ spec.heading <:+: dream.text.toList
  sample : ∀ spec ∈ sections.drop 3, ¬ spec.heading <:+: sampleText summary.toSummaryContent
  start : (sampleText summary.toSummaryContent).head? ≠ some '\r'

/-- No text brings a timestamp of its own, and no heading comes about where two texts meet. -/
structure Unforged (summary : SessionSummary) (dreams : List Dream) : Prop where
  texts : ∀ dream ∈ dreams, ¬ Forges dream.text.toList
  sample : ∀ spec ∈ sections.drop 3, spec.heading <:+: sampleText summary.toSummaryContent →
    ∃ dream ∈ dreams, spec.heading <:+: dream.text.toList

theorem not_forges_of_single {t : List Char} (h : Single t) : ¬ Forges t := by
  obtain ⟨x, hx, rfl | rfl⟩ := h
  · exact not_forges_of_oneLine hx
  · rw [forges_append_iff hx rfl]
    decide

theorem Fits.unforged {summary : SessionSummary} {dreams : List Dream} (h : Fits summary dreams) :
    Unforged summary dreams :=
  ⟨fun dream hdream => not_forges_of_single (h.single dream hdream),
    fun spec hspec hin => absurd hin (h.sample spec hspec)⟩

section Agreement

variable [CharTable] {sessions : List DreamSession} {dreams : List Dream} {sessionId id : Uuid}
  {createdAt : Time} {summary : SessionSummary} {lastActivityAt sessionCreatedAt : Option Time}
  {compiled : CompiledJungianPrompt}

omit [CharTable] in
/-- Keys of 32 bits are not enough for a number with too many digits. -/
theorem length_lt (hkeys : (dreams.map Dream.id).Nodup) (hids : ∀ dream ∈ dreams, dream.id < 2 ^ 31) :
    dreams.length < 10 ^ 10 := by
  have hsub : dreams.map Dream.id ⊆ List.range (2 ^ 31) := by
    intro i hi
    obtain ⟨dream, hdream, rfl⟩ := List.mem_map.mp hi
    exact List.mem_range.mpr (hids dream hdream)
  have hle := (List.subperm_of_subset hkeys hsub).length_le
  rw [List.length_map, List.length_range] at hle
  omega

/-- The summary is the one of the dreams in their order. -/
theorem content_of_build (hsession : ∀ dream ∈ dreams, dream.sessionId = sessionId)
    (hsummary : buildSessionSummary sessions dreams sessionId id createdAt = .ok summary) :
    summary.toSummaryContent = summarize (sortDreams dreams) := by
  rw [buildSessionSummary] at hsummary
  split at hsummary
  · cases hsummary
  · cases hsummary
    rw [sessionDreams, List.filter_eq_self.mpr (by simpa using hsession)]
    rfl

/-- The summary of single lines is tidy. -/
theorem tidy_of_single (hcontent : summary.toSummaryContent = summarize (sortDreams dreams))
    (hcompiled : compiled = compileJungianPrompt summary dreams lastActivityAt sessionCreatedAt)
    (hsingle : ∀ dream ∈ dreams, Single dream.text.toList) : Tidy compiled.summary := by
  have hkeys : compiled.summary.keySymbols = (summarize (sortDreams dreams)).keySymbols := by
    rw [hcompiled, ← hcontent]
    rfl
  have hwords : compiled.summary.recurringWords = (summarize (sortDreams dreams)).recurringWords := by
    rw [hcompiled, ← hcontent]
    rfl
  have hsample : compiled.summary.rawTextSample.toList = sampleText (summarize (sortDreams dreams)) := by
    rw [hcompiled, ← hcontent]
    rfl
  refine ⟨?_, ?_, ?_⟩
  · rw [hkeys]
    exact fun v hv c hc => (lowered_keySymbols _ v hv c hc).quiet
  · rw [hwords]
    exact fun v hv c hc => (lowered_recurringWords _ v hv c hc).quiet
  · rw [hsample]
    exact spaced_sampleText fun dream hdream =>
      hsingle dream ((List.mem_insertionSort _).mp hdream)

omit [CharTable] in
/-- The log of single lines passes the check. -/
theorem log_valid (hcompiled : compiled =
      compileJungianPrompt summary dreams lastActivityAt sessionCreatedAt)
    (hcount : summary.dreamCount = dreams.length) (hlen : dreams.length < 10 ^ maxStrDigits)
    (hplain : ∀ dream ∈ dreams, Plain dream.text.toList) :
    validateDreamSection (stripNewlines (unlines ([] :: dreamLines compiled.dreams ++ [[]])))
      summary.dreamCount = .ok none := by
  by_cases hnil : dreams = []
  · have hbody : stripNewlines (unlines ([] :: dreamLines [] ++ [[]])) =
        "(no dreams provided)".toList := by decide
    rw [(dreams_eq_nil_iff hcompiled).mpr hnil, hbody, hcount, hnil]
    rfl
  · have hzero : summary.dreamCount ≠ 0 := by
      rw [hcount]
      simpa using hnil
    have hne : compiled.dreams ≠ [] := fun h => hnil ((dreams_eq_nil_iff hcompiled).mp h)
    have hs := stamped_of_compile hcompiled
    have hblocks := (log_of_plain hs ((forall_text_iff hcompiled Plain).mpr hplain) []).2
    have hlength : (sortDreams dreams).length = dreams.length := List.length_insertionSort _ _
    have hvalid := validateDreamBlocks_single (sortDreams dreams) 0
      (fun dream hdream => (hplain dream ((List.mem_insertionSort _).mp hdream)).1) (by omega)
    rw [stripNewlines_log hne, validateDreamSection, if_neg (by exact_mod_cast hzero), hblocks,
      hcompiled, compileJungianPrompt, List.map_map]
    exact hvalid

omit [CharTable] in
/-- The check of the log leaves only plain texts. -/
theorem plain_of_accepted (hcompiled : compiled =
      compileJungianPrompt summary dreams lastActivityAt sessionCreatedAt)
    (hcount : summary.dreamCount = dreams.length)
    (hforge : ∀ dream ∈ dreams, ¬ Forges dream.text.toList)
    (haccepted : Accepted (renderCompiledPrompt compiled)) :
    ∀ dream ∈ dreams, Plain dream.text.toList := by
  by_cases hnil : dreams = []
  · simp [hnil]
  · have hcontext := quiet_contextLines summary dreams lastActivityAt sessionCreatedAt
    rw [← hcompiled] at hcontext
    obtain ⟨-, ⟨body, hbody, hvalid⟩, -⟩ := valid_of_accepted hcompiled haccepted
    obtain ⟨tail, before, after, hcut, hlog⟩ :=
      logBody hcontext fun h => hnil ((dreams_eq_nil_iff hcompiled).mp h)
    rw [hbody] at hlog
    cases hlog
    have hzero : summary.dreamCount ≠ 0 := by
      rw [hcount]
      simpa using hnil
    rw [validateDreamSection, if_neg (by exact_mod_cast hzero)] at hvalid
    exact (forall_text_iff hcompiled Plain).mp (plain_of_valid (stamped_of_compile hcompiled)
      ((forall_text_iff hcompiled (¬ Forges ·)).mpr hforge) hcut hvalid)

omit [CharTable] in
/-- The order of the sections leaves no later heading in a text. -/
theorem not_infix_of_accepted (hcompiled : compiled =
      compileJungianPrompt summary dreams lastActivityAt sessionCreatedAt)
    (hplain : ∀ dream ∈ dreams, Plain dream.text.toList)
    (haccepted : Accepted (renderCompiledPrompt compiled)) :
    ∀ spec ∈ sections.drop 3, ∀ dream ∈ dreams, ¬ spec.heading <:+: dream.text.toList := by
  have hs := stamped_of_compile hcompiled
  have hcontext := quiet_contextLines summary dreams lastActivityAt sessionCreatedAt
  rw [← hcompiled] at hcontext
  have hlines := not_infix_dreamLines summary_isHeading hs
    ((forall_text_iff hcompiled (¬ summarySection.heading <:+: ·)).mpr fun dream hdream =>
      (hplain dream hdream).2)
  obtain ⟨horder, -, -⟩ := valid_of_accepted hcompiled haccepted
  obtain ⟨post, hpost⟩ := render_summary compiled
  have hcut := cut_heading summary_isHeading (by decide)
    (not_infix_upToSummary hcontext hlines summary_isHeading (by decide) (by decide))
    ((summaryLines compiled.summary ++ [[]]) ++ instructionsSection.heading :: post)
  rw [← hpost] at hcut
  -- a text is in what comes before the heading of the summary
  have hbefore : ∀ dream ∈ dreams,
      dream.text.toList <:+: unlines (upToSummary compiled ++ [[]]) := by
    refine (forall_text_iff hcompiled (· <:+: unlines (upToSummary compiled ++ [[]]))).mp ?_
    intro entry hentry
    have hne : compiled.dreams ≠ [] := List.ne_nil_of_mem hentry
    have hline : "text: ".toList ++ entry.text.toList ∈ upToSummary compiled ++ [[]] := by
      refine List.mem_append_left _ (List.mem_append_right _ (List.mem_cons_of_mem _ ?_))
      rw [dreamLines, if_neg hne]
      exact List.mem_flatMap.mpr ⟨entry, hentry, List.mem_cons_of_mem _ List.mem_cons_self⟩
    exact (List.suffix_append _ _).isInfix.trans (infix_of_mem_unlines hline)
  obtain ⟨p₁, p₂, p₃, p₄, p₅, p₆, -, -, h₃, h₄, h₅, h₆, hsorted⟩ :=
    validateSectionOrder_eq_ok.mp horder
  have hle : p₃ ≤ p₄ ∧ p₃ ≤ p₅ ∧ p₃ ≤ p₆ := by
    simp only [List.pairwise_cons, List.forall_mem_cons] at hsorted
    exact ⟨hsorted.2.2.1.1, hsorted.2.2.1.2.1, hsorted.2.2.1.2.2.1⟩
  have hno : ∀ spec ∈ sections.drop 3,
      ¬ spec.heading <:+: unlines (upToSummary compiled ++ [[]]) := by
    simp only [sections, List.drop_succ_cons, List.drop_zero, List.forall_mem_cons]
    exact ⟨not_infix_of_le hcut instructions_isHeading.ne_nil h₃ h₄ hle.1,
      not_infix_of_le hcut framework_isHeading.ne_nil h₃ h₅ hle.2.1,
      not_infix_of_le hcut outputFormat_isHeading.ne_nil h₃ h₆ hle.2.2, by simp⟩
  exact fun spec hspec dream hdream hin => hno spec hspec (hin.trans (hbefore dream hdream))

/-- The validator accepts what the builder makes of the dreams and their own summary, if and only
if the texts and the sample fit. -/
theorem accepted_iff_fits (hkeys : (dreams.map Dream.id).Nodup)
    (hids : ∀ dream ∈ dreams, dream.id < 2 ^ 31)
    (hsession : ∀ dream ∈ dreams, dream.sessionId = sessionId)
    (hsummary : buildSessionSummary sessions dreams sessionId id createdAt = .ok summary) :
    Accepted (buildJungianPrompt summary dreams lastActivityAt sessionCreatedAt) ∧
      Unforged summary dreams ↔ Fits summary dreams := by
  have hcontent := content_of_build hsession hsummary
  have hcount : summary.dreamCount = dreams.length := by
    rw [hcontent]
    exact List.length_insertionSort _ _
  have hlen := lt_pow_maxStrDigits (length_lt hkeys hids)
  generalize hcompiled : compileJungianPrompt summary dreams lastActivityAt sessionCreatedAt =
    compiled
  have hsample : compiled.summary.rawTextSample.toList = sampleText summary.toSummaryContent := by
    rw [← hcompiled]
    rfl
  have hprompt : buildJungianPrompt summary dreams lastActivityAt sessionCreatedAt =
      renderCompiledPrompt compiled := by rw [buildJungianPrompt, hcompiled]
  constructor
  · rintro ⟨haccepted, hunforged⟩
    rw [hprompt] at haccepted
    have hplain := plain_of_accepted hcompiled.symm hcount hunforged.texts haccepted
    have hlater := not_infix_of_accepted hcompiled.symm hplain haccepted
    have htexts : ∀ spec ∈ sections.drop 2, ∀ dream ∈ dreams,
        ¬ spec.heading <:+: dream.text.toList :=
      List.forall_mem_cons.mpr ⟨fun dream hdream => (hplain dream hdream).2, hlater⟩
    have hheadings : ∀ spec ∈ sections.drop 3,
        ¬ spec.heading <:+: sampleText summary.toSummaryContent := by
      intro spec hspec hin
      obtain ⟨dream, hdream, htext⟩ := hunforged.sample spec hspec hin
      exact hlater spec hspec dream hdream htext
    have hsingle : ∀ dream ∈ dreams, Single dream.text.toList := fun dream hdream =>
      (hplain dream hdream).1
    have htidy := tidy_of_single hcontent hcompiled.symm hsingle
    have hc := clean_of_texts hcompiled.symm htexts htidy (by rw [hsample]; exact hheadings)
    obtain ⟨-, -, body, hbody, hvalid⟩ := valid_of_accepted hcompiled.symm haccepted
    rw [hc.summaryBody, htidy.stripNewlines] at hbody
    rw [← Except.ok.inj hbody] at hvalid
    refine ⟨hsingle, htexts, hheadings, ?_⟩
    rw [← hsample]
    exact (htidy.valid_iff.mp hvalid).2
  · intro h
    have hplain : ∀ dream ∈ dreams, Plain dream.text.toList := fun dream hdream =>
      ⟨h.single dream hdream, h.texts _ (by simp [sections]) dream hdream⟩
    have htidy := tidy_of_single hcontent hcompiled.symm h.single
    have hne : compiled.summary.rawTextSample.toList ≠ [] := by
      rw [hsample, hcontent]
      exact sampleText_ne_nil _
    have hheadings : ∀ spec ∈ sections.drop 3,
        ¬ spec.heading <:+: compiled.summary.rawTextSample.toList := by
      rw [hsample]
      exact h.sample
    have hstart : compiled.summary.rawTextSample.toList.head? ≠ some '\r' := by
      rw [hsample]
      exact h.start
    exact ⟨accepted_of_tidy hcompiled.symm h.texts htidy hheadings hne hstart (hcount ▸ hlen)
      (log_valid hcompiled.symm hcount hlen hplain), h.unforged⟩

end Agreement

namespace Acceptance

/-- `str.isalnum` on ASCII. -/
abbrev asciiTable : CharTable := ⟨Char.isAlphanum⟩

def session : DreamSession := ⟨1, 7, .active, 0, 0⟩

def summary : SessionSummary where
  dreamCount := 1
  keySymbols := ["river"]
  recurringWords := []
  rawTextSample := some "a river"
  id := 1
  sessionId := 1
  userId := 7
  createdAt := 0

/-- A dream on one line is accepted. -/
theorem accepted_single :
    @buildSessionSummary asciiTable [session] [⟨1, 7, "a river", 0, 1⟩] 1 1 0 = .ok summary ∧
      Accepted (buildJungianPrompt summary [⟨1, 7, "a river", 0, 1⟩] none none) := by
  have hsummary :
      @buildSessionSummary asciiTable [session] [⟨1, 7, "a river", 0, 1⟩] 1 1 0 = .ok summary := by
    decide
  have hquiet : Quiet "a river".toList := by decide
  let _ := asciiTable
  refine ⟨hsummary, ((accepted_iff_fits (by decide) (by decide) (by decide) hsummary).mpr
    ⟨List.forall_mem_singleton.mpr ⟨_, hquiet.oneLine, .inl rfl⟩, ?_, ?_, by decide⟩).1⟩
  · intro spec hspec
    obtain ⟨k, hh⟩ := isHeading_of_mem spec (List.mem_of_mem_drop hspec)
    exact List.forall_mem_singleton.mpr (hh.not_infix_quiet hquiet)
  · intro spec hspec
    obtain ⟨k, hh⟩ := isHeading_of_mem spec (List.mem_of_mem_drop hspec)
    exact hh.not_infix_quiet hquiet

/-- A dream of two lines is not: its block has four. -/
theorem two_lines_rejected : ∃ summary,
    @buildSessionSummary asciiTable [session] [⟨1, 7, "a\nb", 0, 1⟩] 1 1 0 = .ok summary ∧
      ¬ Accepted (buildJungianPrompt summary [⟨1, 7, "a\nb", 0, 1⟩] none none) := by
  refine ⟨_, rfl, fun haccepted => ?_⟩
  have hforge : ∀ dream ∈ [(⟨1, 7, "a\nb", 0, 1⟩ : Dream)], ¬ Forges dream.text.toList := by
    refine List.forall_mem_singleton.mpr ?_
    rintro ⟨l, hl, hp⟩
    have hsecond : (splitlines "a\nb".toList)[1]? = some ['b'] := by decide
    rw [hsecond] at hl
    cases hl
    exact absurd hp (by decide)
  have hplain := plain_of_accepted rfl rfl hforge haccepted
  exact (hplain _ List.mem_cons_self).1.no_newline (by decide)

end Acceptance

end LiberNovus.Prompts

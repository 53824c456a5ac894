import LiberNovus.Prompts.Acceptance

/-! Headings in the sample. No text has one, but one can come about where two texts meet, and
the validator then takes it for the heading of its section.

Proved: the prompt of single lines is accepted if and only if the headings in its sample stand in
the order of the contract, each with what its section requires before the next one. -/

namespace LiberNovus.Prompts

open Text Search Results Session

/-! ### What follows the sample -/

/-- The text behind the line of the sample. -/
def behindSample : List Char :=
  unlines ([] :: instructionsSection.heading :: ((instructionLines ++ [[]]) ++
    frameworkSection.heading :: ((frameworkLines ++ [[]]) ++
      outputFormatSection.heading :: outputFormatLines)))

def behindInstructions : List Char :=
  unlines ([] :: ((instructionLines ++ [[]]) ++
    frameworkSection.heading :: ((frameworkLines ++ [[]]) ++
      outputFormatSection.heading :: outputFormatLines)))

def behindFramework : List Char :=
  unlines ([] :: ((frameworkLines ++ [[]]) ++ outputFormatSection.heading :: outputFormatLines))

def behindOutputFormat : List Char := unlines ([] :: outputFormatLines)

/-- The rules, as they stand between their heading and the next. -/
def rulesText : List Char := unlines ([] :: (instructionLines ++ [[]]) ++ [[]])

def itemsText : List Char := unlines ([] :: (frameworkLines ++ [[]]) ++ [[]])

/-- Quiet lines with empty ones around them. -/
theorem not_infix_lines {ls : List (List Char)} (hls : ∀ l ∈ ls, Quiet l) {h : List Char} {k : Char}
    (hh : IsHeading k h) : ∀ l ∈ [] :: (ls ++ [[]]), ¬ h <:+: l := by
  simp only [List.forall_mem_cons, List.forall_mem_append]
  exact ⟨hh.not_infix_quiet quiet_nil, not_infix_of_quiet hls hh, hh.not_infix_quiet quiet_nil,
    by simp⟩

theorem cut_instructions :
    cut instructionsSection.heading behindSample = some (['\n'], behindInstructions) :=
  cut_heading instructions_isHeading (by decide)
    (List.forall_mem_singleton.mpr (instructions_isHeading.not_infix_quiet quiet_nil)) _

theorem cut_framework : cut frameworkSection.heading behindInstructions =
    some (rulesText, behindFramework) :=
  cut_heading framework_isHeading (by decide)
    (not_infix_lines quiet_instructionLines framework_isHeading) _

theorem cut_outputFormat : cut outputFormatSection.heading behindFramework =
    some (itemsText, behindOutputFormat) :=
  cut_heading outputFormat_isHeading (by decide)
    (not_infix_lines quiet_frameworkLines outputFormat_isHeading) _

/-! ### The line of the sample -/

def sampleLabel : List Char := "raw_text_sample: ".toList

/-- The lines in front of the one of the sample. -/
def upToSample (compiled : CompiledJungianPrompt) : List (List Char) :=
  upToSummary compiled ++ summarySection.heading ::
    ["key_symbols: ".toList ++ formatList compiled.summary.keySymbols,
      "recurring_words: ".toList ++ formatList compiled.summary.recurringWords]

theorem upToSample_ne_nil (compiled : CompiledJungianPrompt) : upToSample compiled ≠ [] :=
  List.append_ne_nil_of_right_ne_nil _ (List.cons_ne_nil _ _)

/-- The text from the sample on. -/
def fromSample (compiled : CompiledJungianPrompt) : List Char :=
  compiled.summary.rawTextSample.toList ++ '\n' :: behindSample

theorem upToInstructions_append (compiled : CompiledJungianPrompt) (post : List (List Char)) :
    upToInstructions compiled ++ post = upToSample compiled ++
      (sampleLabel ++ compiled.summary.rawTextSample.toList) :: [] :: post := by
  rw [upToInstructions, upToSample, List.append_assoc, List.append_assoc]
  congr 1

theorem render_sample (compiled : CompiledJungianPrompt) : renderCompiledPrompt compiled =
    unlines (upToSample compiled ++ [sampleLabel ++ fromSample compiled]) := by
  have hne := upToSample_ne_nil compiled
  rw [render_instructions, upToInstructions_append, unlines_append hne (List.cons_ne_nil _ _),
    unlines_cons (List.cons_ne_nil _ _), unlines_append hne (List.cons_ne_nil _ _), unlines_singleton,
    fromSample, behindSample, List.append_assoc]

section Cuts

variable {compiled : CompiledJungianPrompt} {h x y : List Char} {k : Char}

/-- A heading that is not in front of the sample is found behind its label. -/
theorem cut_render (hh : IsHeading k h) (hk : k ≠ '\n')
    (hpre : ∀ l ∈ upToSample compiled, ¬ h <:+: l) (hcut : cut h (fromSample compiled) = some (x, y)) :
    cut h (renderCompiledPrompt compiled) =
      some (unlines (upToSample compiled ++ [sampleLabel ++ x]), y) := by
  have hsign : '#' ∉ sampleLabel := of_literal (P := ('#' ∉ ·)) rfl (by decide)
  have hline : cut h (sampleLabel ++ fromSample compiled) = some (sampleLabel ++ x, y) := by
    rw [hh.cut_append hsign, hcut]
    rfl
  rw [render_sample, cut_unlines hh.ne_nil (hh.no_newline hk) hpre hline, unlines_singleton]

theorem index_render (hh : IsHeading k h) (hk : k ≠ '\n')
    (hpre : ∀ l ∈ upToSample compiled, ¬ h <:+: l) (hcut : cut h (fromSample compiled) = some (x, y)) :
    index h (renderCompiledPrompt compiled) =
      .ok (unlines (upToSample compiled ++ [sampleLabel ++ x])).length := by
  rw [index, cut_render hh hk hpre hcut]

theorem length_upToSample (compiled : CompiledJungianPrompt) (x : List Char) :
    (unlines (upToSample compiled ++ [sampleLabel ++ x])).length =
      (unlines (upToSample compiled)).length + 1 + sampleLabel.length + x.length := by
  rw [unlines_append (upToSample_ne_nil compiled) (List.cons_ne_nil _ _), unlines_singleton]
  simp only [List.length_append, List.length_cons]
  omega

end Cuts

/-! ### The order of the sections -/

/-- Nothing in front of the sample has a heading of the sections behind it. -/
structure Grounded (compiled : CompiledJungianPrompt) : Prop where
  context : ∀ l ∈ contextLines compiled.context, Quiet l
  dreams : ∀ spec ∈ sections.drop 2, ∀ l ∈ dreamLines compiled.dreams, ¬ spec.heading <:+: l
  summary : Tidy compiled.summary

/-- The headings behind the sample come one after the other. -/
structure InOrder (sample rules : List Char) : Prop where
  framework : ¬ frameworkSection.heading <:+: sample
  outputFormat : ¬ outputFormatSection.heading <:+: sample
  afterRules : ¬ outputFormatSection.heading <:+: rules

section Order

variable {compiled : CompiledJungianPrompt} {t x₄ x₅ x₆ y₄ y₅ y₆ : List Char}

theorem Grounded.not_infix_upToSample (hg : Grounded compiled) (spec : SectionSpec)
    (hspec : spec ∈ sections.drop 2) {k : Char} (hh : IsHeading k spec.heading)
    (hk : k ∉ ['1', '2', '3']) : ∀ l ∈ upToSample compiled, ¬ spec.heading <:+: l := by
  simp only [List.mem_cons, not_or] at hk
  simp only [upToSample, List.forall_mem_append, List.forall_mem_cons]
  exact ⟨not_infix_upToSummary hg.context (hg.dreams spec hspec) hh hk.1 hk.2.1,
    hh.not_infix summary_isHeading hk.2.2.1 (by decide),
    hh.not_infix_quiet (quiet_append.mpr ⟨by decide, quiet_formatList hg.summary.keySymbols⟩),
    hh.not_infix_quiet (quiet_append.mpr ⟨by decide, quiet_formatList hg.summary.recurringWords⟩),
    by simp⟩

theorem cut_behind_rules (h₄ : cut instructionsSection.heading t = some (x₄, y₄))
    (h₅ : cut frameworkSection.heading y₄ = some (x₅, y₅))
    (h : ¬ frameworkSection.heading <:+: x₄) :
    cut frameworkSection.heading t = some (x₄ ++ (instructionsSection.heading ++ x₅), y₅) := by
  rw [cut_eq_some h₄, framework_isHeading.cut_heading_append instructions_isHeading (by decide)
    (by decide) h, h₅]
  rfl

theorem cut_behind_items (h₄ : cut instructionsSection.heading t = some (x₄, y₄))
    (h₅ : cut frameworkSection.heading y₄ = some (x₅, y₅))
    (h₆ : cut outputFormatSection.heading y₅ = some (x₆, y₆))
    (h : ¬ outputFormatSection.heading <:+: x₄) (h' : ¬ outputFormatSection.heading <:+: x₅) :
    cut outputFormatSection.heading t = some (x₄ ++ (instructionsSection.heading ++
      (x₅ ++ (frameworkSection.heading ++ x₆))), y₆) := by
  rw [cut_eq_some h₄, outputFormat_isHeading.cut_heading_append instructions_isHeading (by decide)
    (by decide) h, cut_eq_some h₅, outputFormat_isHeading.cut_heading_append framework_isHeading
    (by decide) (by decide) h', h₆]
  rfl

/-- The order is the one of the contract if and only if no later heading comes first. -/
theorem order_iff (hg : Grounded compiled)
    (h₄ : cut instructionsSection.heading (fromSample compiled) = some (x₄, y₄))
    (h₅ : cut frameworkSection.heading y₄ = some (x₅, y₅))
    (h₆ : cut outputFormatSection.heading y₅ = some (x₆, y₆)) :
    validateSectionOrder (renderCompiledPrompt compiled) = .ok none ↔ InOrder x₄ x₅ := by
  have hpre₄ := hg.not_infix_upToSample instructionsSection (by simp [sections])
    instructions_isHeading (by decide)
  have hpre₅ := hg.not_infix_upToSample frameworkSection (by simp [sections])
    framework_isHeading (by decide)
  have hpre₆ := hg.not_infix_upToSample outputFormatSection (by simp [sections])
    outputFormat_isHeading (by decide)
  have hin : ∀ {h x : List Char}, ¬ h <:+: unlines (upToSample compiled ++ [sampleLabel ++ x]) →
      ¬ h <:+: x := fun hno hx => hno ((hx.trans (List.suffix_append _ _).isInfix).trans
        (infix_of_mem_unlines (List.mem_append_right _ List.mem_cons_self)))
  have hcut₄ := cut_render instructions_isHeading (by decide) hpre₄ h₄
  rw [validateSectionOrder_eq_ok]
  constructor
  · rintro ⟨p₁, p₂, p₃, p₄, p₅, p₆, -, -, -, i₄, i₅, i₆, hsorted⟩
    simp only [List.pairwise_cons, List.forall_mem_cons] at hsorted
    obtain ⟨-, -, -, ⟨h₄₅, h₄₆, -⟩, ⟨h₅₆, -⟩, -⟩ := hsorted
    have hframework := hin (not_infix_of_le hcut₄ framework_isHeading.ne_nil i₄ i₅ h₄₅)
    have houtput := hin (not_infix_of_le hcut₄ outputFormat_isHeading.ne_nil i₄ i₆ h₄₆)
    have hcut₅ := cut_render framework_isHeading (by decide) hpre₅
      (cut_behind_rules h₄ h₅ hframework)
    have hafter := hin (not_infix_of_le hcut₅ outputFormat_isHeading.ne_nil i₅ i₆ h₅₆)
    exact ⟨hframework, houtput, fun hx => hafter ((hx.trans (List.suffix_append _ _).isInfix).trans
      (List.suffix_append _ _).isInfix)⟩
  · rintro ⟨hframework, houtput, hafter⟩
    obtain ⟨i₁, i₂, i₃⟩ := index_first hg.context (hg.dreams _ (by simp [sections]))
    refine ⟨_, _, _, _, _, _, i₁, i₂, i₃, index_render instructions_isHeading (by decide) hpre₄ h₄,
      index_render framework_isHeading (by decide) hpre₅ (cut_behind_rules h₄ h₅ hframework),
      index_render outputFormat_isHeading (by decide) hpre₆
        (cut_behind_items h₄ h₅ h₆ houtput hafter), ?_⟩
    have l₁ : (unlines ([promptPrefix, []] ++ [[]])).length ≤
        (unlines (upToDreams compiled ++ [[]])).length := by
      rw [upToDreams, List.append_assoc]
      exact length_unlines_le _ _
    have l₂ : (unlines (upToDreams compiled ++ [[]])).length ≤
        (unlines (upToSummary compiled ++ [[]])).length := by
      rw [upToSummary, List.append_assoc]
      exact length_unlines_le _ _
    have l₃ : (unlines (upToSummary compiled ++ [[]])).length ≤
        (unlines (upToSample compiled ++ [[]])).length := by
      rw [upToSample, List.append_assoc]
      exact length_unlines_le _ _
    have l₄ : (unlines (upToSample compiled ++ [[]])).length =
        (unlines (upToSample compiled)).length + 1 := by
      rw [unlines_append (upToSample_ne_nil compiled) (List.cons_ne_nil _ _)]
      simp
    rw [← List.isChain_iff_pairwise]
    simp only [List.isChain_cons_cons, length_upToSample, List.length_append]
    refine ⟨l₁, l₂, by omega, by omega, by omega, .singleton _⟩

end Order

/-! ### The sections that are taken out -/

set_option maxRecDepth 1000 in
theorem required_lines : ∀ line ∈ requiredInstructionLines ++ requiredFrameworkItems ++
    requiredOutputFormatLines, line ≠ [] ∧ '\n' ∉ line :=
  forall_literals [_, _, _, _, _, _, _, _, _, _, _] [_, _, _, _, _, _, _, _, _, _, _] rfl (by decide)

theorem not_newline {line : List Char} (h : '\n' ∉ line) : ∀ c ∈ line, (c == '\n') = false := by
  intro c hc
  have hne : c ≠ '\n' := by
    rintro rfl
    exact h hc
  simpa using hne

/-- The line feeds around a section do not matter to what it requires. -/
theorem validateFixedSection_strip {body : List Char} {requiredLines : List (List Char)}
    (h : ∀ line ∈ requiredLines, line ≠ [] ∧ '\n' ∉ line)
    (error : List Char → StructuralValidationError) :
    validateFixedSection (stripNewlines body) requiredLines error = none ↔
      ∀ line ∈ requiredLines, line <:+: body := by
  rw [validateFixedSection_eq_none]
  exact forall₂_congr fun line hline =>
    infix_trim_iff (h line hline).1 (not_newline (h line hline).2)

/-- The section of the summary, with a sample that ends somewhere. -/
def summaryBody (compiled : CompiledJungianPrompt) (sample : List Char) : List Char :=
  stripNewlines (unlines ([] :: ["key_symbols: ".toList ++ formatList compiled.summary.keySymbols,
    "recurring_words: ".toList ++ formatList compiled.summary.recurringWords] ++
    [sampleLabel ++ sample]))

section Bodies

variable {sessionSummary : SessionSummary} {dreams : List Dream}
  {lastActivityAt sessionCreatedAt : Option Time} {compiled : CompiledJungianPrompt}
  {x₄ x₅ x₆ y₄ y₅ y₆ : List Char}

theorem Grounded.summaryBody (hg : Grounded compiled)
    (h₄ : cut instructionsSection.heading (fromSample compiled) = some (x₄, y₄)) :
    extractSectionBody (renderCompiledPrompt compiled) summarySection.heading
      (some instructionsSection.heading) = .ok (summaryBody compiled x₄) := by
  have hsign : '#' ∉ sampleLabel := of_literal (P := ('#' ∉ ·)) rfl (by decide)
  have hline : cut instructionsSection.heading (sampleLabel ++ fromSample compiled) =
      some (sampleLabel ++ x₄, y₄) := by
    rw [instructions_isHeading.cut_append hsign, h₄]
    rfl
  have hpre := not_infix_upToSummary hg.context (hg.dreams _ (by simp [sections])) summary_isHeading
    (by decide) (by decide)
  have hmid : ∀ l ∈ ["key_symbols: ".toList ++ formatList compiled.summary.keySymbols,
      "recurring_words: ".toList ++ formatList compiled.summary.recurringWords],
      ¬ instructionsSection.heading <:+: l :=
    fun l hl => hg.not_infix_upToSample instructionsSection (by simp [sections])
      instructions_isHeading (by decide) l (List.mem_append_right _ (List.mem_cons_of_mem _ hl))
  rw [render_sample, upToSample, List.append_assoc, List.cons_append,
    extractSectionBody_lines summary_isHeading (by decide) instructions_isHeading (by decide) hpre
      hmid hline]
  rfl

/-- What the checks of the sections come to when the headings are in order. -/
theorem sections_eq (hcompiled : compiled =
      compileJungianPrompt sessionSummary dreams lastActivityAt sessionCreatedAt)
    (hg : Grounded compiled) (hcount : sessionSummary.dreamCount < 10 ^ maxStrDigits)
    (hdreams : validateDreamSection (stripNewlines (unlines ([] :: dreamLines compiled.dreams ++ [[]])))
      sessionSummary.dreamCount = .ok none)
    (h₄ : cut instructionsSection.heading (fromSample compiled) = some (x₄, y₄))
    (h₅ : cut frameworkSection.heading y₄ = some (x₅, y₅))
    (h₆ : cut outputFormatSection.heading y₅ = some (x₆, y₆)) (hin : InOrder x₄ x₅) :
    validateSections (renderCompiledPrompt compiled) = .ok (List.reduceOption
      [none, none, validateSummarySection (summaryBody compiled x₄) summarySection.fields,
        validateFixedSection (stripNewlines x₅) requiredInstructionLines .instructions,
        validateFixedSection (stripNewlines x₆) requiredFrameworkItems .framework,
        validateFixedSection (y₆.dropWhile (· == '\n')) requiredOutputFormatLines .outputFormat]) := by
  have hpre₄ := hg.not_infix_upToSample instructionsSection (by simp [sections])
    instructions_isHeading (by decide)
  have hpre₅ := hg.not_infix_upToSample frameworkSection (by simp [sections])
    framework_isHeading (by decide)
  have hpre₆ := hg.not_infix_upToSample outputFormatSection (by simp [sections])
    outputFormat_isHeading (by decide)
  have hcut₄ := cut_render instructions_isHeading (by decide) hpre₄ h₄
  have hcut₅ := cut_render framework_isHeading (by decide) hpre₅
    (cut_behind_rules h₄ h₅ hin.framework)
  have hcut₆ := cut_render outputFormat_isHeading (by decide) hpre₆
    (cut_behind_items h₄ h₅ h₆ hin.outputFormat hin.afterRules)
  have hrules : extractSectionBody (renderCompiledPrompt compiled) instructionsSection.heading
      (some frameworkSection.heading) = .ok (stripNewlines x₅) := by
    simp only [extractSectionBody, hcut₄, h₅]
  have hitems : extractSectionBody (renderCompiledPrompt compiled) frameworkSection.heading
      (some outputFormatSection.heading) = .ok (stripNewlines x₆) := by
    simp only [extractSectionBody, hcut₅, h₆]
  have hformat : extractSectionBody (renderCompiledPrompt compiled) outputFormatSection.heading none =
      .ok (y₆.dropWhile (· == '\n')) := by
    simp only [extractSectionBody, hcut₆]
  simp only [validateSections, contextBody hg.context,
    dreamsBody hg.context (hg.dreams summarySection (by simp [sections])), hg.summaryBody h₄, hrules,
    hitems, hformat, pyInt_dreamCount hcompiled hcount, hdreams,
    validateContextSection_context hcompiled, bind, Except.bind]

theorem sections_iff (hcompiled : compiled =
      compileJungianPrompt sessionSummary dreams lastActivityAt sessionCreatedAt)
    (hg : Grounded compiled) (hcount : sessionSummary.dreamCount < 10 ^ maxStrDigits)
    (hdreams : validateDreamSection (stripNewlines (unlines ([] :: dreamLines compiled.dreams ++ [[]])))
      sessionSummary.dreamCount = .ok none)
    (h₄ : cut instructionsSection.heading (fromSample compiled) = some (x₄, y₄))
    (h₅ : cut frameworkSection.heading y₄ = some (x₅, y₅))
    (h₆ : cut outputFormatSection.heading y₅ = some (x₆, y₆)) (hin : InOrder x₄ x₅) :
    validateSections (renderCompiledPrompt compiled) = .ok [] ↔
      validateSummarySection (summaryBody compiled x₄) summarySection.fields = none ∧
        (∀ line ∈ requiredInstructionLines, line <:+: x₅) ∧
        (∀ line ∈ requiredFrameworkItems, line <:+: x₆) ∧
        ∀ line ∈ requiredOutputFormatLines, line <:+: y₆ := by
  have hlines := required_lines
  simp only [List.forall_mem_append] at hlines
  obtain ⟨⟨hruleLines, hitemLines⟩, hformatLines⟩ := hlines
  have hformatBody : validateFixedSection (y₆.dropWhile (· == '\n')) requiredOutputFormatLines
      .outputFormat = none ↔ ∀ line ∈ requiredOutputFormatLines, line <:+: y₆ := by
    rw [validateFixedSection_eq_none]
    exact forall₂_congr fun line hline =>
      infix_dropWhile_iff (hformatLines line hline).1 (not_newline (hformatLines line hline).2)
  have hnone {l : List (Option StructuralValidationError)} :
      l.reduceOption = [] ↔ ∀ error ∈ l, error = none := List.filterMap_eq_nil_iff
  rw [sections_eq hcompiled hg hcount hdreams h₄ h₅ h₆ hin, Except.ok.injEq, hnone,
    ← validateFixedSection_strip hruleLines .instructions,
    ← validateFixedSection_strip hitemLines .framework, ← hformatBody]
  simp

/-- The sample is a field if there is something in it. -/
theorem summaryBody_valid_iff (htidy : Tidy compiled.summary) {x w : List Char} (hx : OneLine x)
    (hw : ∀ c ∈ w, c = '\n') :
    validateSummarySection (summaryBody compiled (x ++ w)) summarySection.fields = none ↔ x ≠ [] := by
  obtain ⟨summary, hkeys, hwords, hsample⟩ : ∃ summary : SessionSummaryBlock,
      summary.keySymbols = compiled.summary.keySymbols ∧
      summary.recurringWords = compiled.summary.recurringWords ∧ summary.rawTextSample.toList = x :=
    ⟨{ compiled.summary with rawTextSample := String.ofList x }, rfl, rfl, String.toList_ofList⟩
  have htidy' : Tidy summary :=
    ⟨hkeys ▸ htidy.keySymbols, hwords ▸ htidy.recurringWords, hsample ▸ spaced_of_oneLine hx⟩
  have hlines : ∀ key words label : List Char, unlines ([] :: [key, words] ++ [label ++ (x ++ w)]) =
      '\n' :: (unlines [key, words, label ++ x] ++ w) := by
    intro key words label
    rw [← List.append_assoc, unlines_last]
    rfl
  have hsummary : summaryLines summary =
      ["key_symbols: ".toList ++ formatList compiled.summary.keySymbols,
        "recurring_words: ".toList ++ formatList compiled.summary.recurringWords, sampleLabel ++ x] := by
    rw [summaryLines, hkeys, hwords, hsample]
    rfl
  have hbody : summaryBody compiled (x ++ w) = unlines (summaryLines summary) := by
    rw [summaryBody, hlines, ← hsummary, htidy'.strip_append hw]
  have hhead : x.head? ≠ some '\r' := fun hc => absurd (hx _ (List.mem_of_head? hc)) (by decide)
  rw [hbody, htidy'.valid_iff, hsample]
  exact and_iff_left hhead

/-- The prompt is accepted if and only if the headings are in order and each section has what it
requires. -/
theorem accepted_iff_cuts (hcompiled : compiled =
      compileJungianPrompt sessionSummary dreams lastActivityAt sessionCreatedAt)
    (hg : Grounded compiled) (hcount : sessionSummary.dreamCount < 10 ^ maxStrDigits)
    (hdreams : validateDreamSection (stripNewlines (unlines ([] :: dreamLines compiled.dreams ++ [[]])))
      sessionSummary.dreamCount = .ok none)
    (h₄ : cut instructionsSection.heading (fromSample compiled) = some (x₄, y₄))
    (h₅ : cut frameworkSection.heading y₄ = some (x₅, y₅))
    (h₆ : cut outputFormatSection.heading y₅ = some (x₆, y₆)) :
    Accepted (renderCompiledPrompt compiled) ↔ InOrder x₄ x₅ ∧
      validateSummarySection (summaryBody compiled x₄) summarySection.fields = none ∧
        (∀ line ∈ requiredInstructionLines, line <:+: x₅) ∧
        (∀ line ∈ requiredFrameworkItems, line <:+: x₆) ∧
        ∀ line ∈ requiredOutputFormatLines, line <:+: y₆ := by
  rw [accepted_iff, order_iff hg h₄ h₅ h₆,
    and_iff_right (starts_promptPrefix compiled), and_iff_right (infix_heading compiled)]
  exact and_congr_right fun hin => sections_iff hcompiled hg hcount hdreams h₄ h₅ h₆ hin

end Bodies

/-! ### The headings in the sample -/

/-- The rest of the sample behind a heading of the framework: what comes before the next heading
is what the section requires. -/
def ItemsFit (rest : List Char) : Prop :=
  match cut outputFormatSection.heading rest with
  | none => True
  | some (items, _) => ∀ item ∈ requiredFrameworkItems, item <:+: items

/-- The rest of the sample behind a heading of the rules. -/
def RulesFit (rest : List Char) : Prop :=
  match cut frameworkSection.heading rest with
  | none => ¬ outputFormatSection.heading <:+: rest
  | some (rules, rest) =>
    ¬ outputFormatSection.heading <:+: rules ∧
      (∀ line ∈ requiredInstructionLines, line <:+: rules) ∧ ItemsFit rest

/-- The headings in the sample stand in the order of the contract: something is before the first,
and before each of the next is what its section requires. -/
def HeadingsFit (sample : List Char) : Prop :=
  match cut instructionsSection.heading sample with
  | none => ¬ frameworkSection.heading <:+: sample ∧ ¬ outputFormatSection.heading <:+: sample
  | some (before, rest) =>
    before ≠ [] ∧ ¬ frameworkSection.heading <:+: before ∧ ¬ outputFormatSection.heading <:+: before ∧
      RulesFit rest

section Fixed

variable {h t : List Char} {k : Char}

theorem IsHeading.not_infix_of_no_sign (hh : IsHeading k h) (ht : '#' ∉ t) : ¬ h <:+: t := by
  obtain ⟨r, rfl, -⟩ := hh
  exact fun hin => ht (hin.subset List.mem_cons_self)

theorem not_infix_text {ls : List (List Char)} (hls : ∀ l ∈ ls, Quiet l) (hh : IsHeading k h)
    (hk : k ≠ '\n') : ¬ h <:+: unlines ([] :: (ls ++ [[]]) ++ [[]]) := by
  rw [infix_unlines_iff hh.ne_nil (hh.no_newline hk)]
  rintro ⟨l, hl, hin⟩
  rcases List.mem_append.mp hl with hl | hl
  · exact not_infix_lines hls hh l hl hin
  · rw [List.mem_singleton.mp hl] at hin
    exact hh.not_infix_quiet quiet_nil hin

theorem not_infix_rulesText (hh : IsHeading k h) (hk : k ≠ '\n') : ¬ h <:+: rulesText :=
  not_infix_text quiet_instructionLines hh hk

/-- The lines of a section stand in its text. -/
theorem infix_text {ls : List (List Char)} (hne : ls ≠ []) :
    unlines ls <:+: unlines ([] :: (ls ++ [[]]) ++ [[]]) := by
  have htext : unlines ([] :: (ls ++ [[]]) ++ [[]]) = ['\n'] ++ unlines ls ++ ['\n', '\n'] := by
    rw [List.cons_append, List.append_assoc, unlines_cons (by simp), unlines_append hne (by simp)]
    simp
  rw [htext]
  exact List.infix_append _ _ _

theorem infix_rulesText : ∀ line ∈ requiredInstructionLines, line <:+: rulesText := fun line hline =>
  (required_instructions line hline).trans (infix_text bounded_instructionLines.ne_nil)

theorem infix_itemsText : ∀ line ∈ requiredFrameworkItems, line <:+: itemsText := fun line hline =>
  (required_framework line hline).trans (infix_text bounded_frameworkLines.ne_nil)

theorem infix_behindFormat : ∀ line ∈ requiredOutputFormatLines, line <:+: behindOutputFormat := by
  intro line hline
  have hin : unlines outputFormatLines <:+: behindOutputFormat := by
    rw [behindOutputFormat, unlines_cons bounded_outputFormatLines.ne_nil]
    exact (List.suffix_cons _ _).isInfix
  exact (required_outputFormat line hline).trans hin

/-- The rest of the prompt ends with the format. -/
theorem suffix_behindSample : behindOutputFormat <:+ behindSample := by
  rw [cut_eq_some cut_instructions, cut_eq_some cut_framework, cut_eq_some cut_outputFormat]
  simp only [← List.append_assoc]
  exact List.suffix_append _ _

end Fixed

theorem headingsFit_of_no_sign {sample : List Char} (h : '#' ∉ sample) : HeadingsFit sample := by
  unfold HeadingsFit
  cases hcut : cut instructionsSection.heading sample with
  | none =>
    exact ⟨framework_isHeading.not_infix_of_no_sign h, outputFormat_isHeading.not_infix_of_no_sign h⟩
  | some parts =>
    have hin : instructionsSection.heading <:+: sample := cut_isSome_iff.mp (by rw [hcut]; rfl)
    exact absurd hin (instructions_isHeading.not_infix_of_no_sign h)

/-! ### The sections of the sample -/

section Fit

variable {sessionSummary : SessionSummary} {dreams : List Dream}
  {lastActivityAt sessionCreatedAt : Option Time} {compiled : CompiledJungianPrompt}

theorem infix_behind {h x rest t : List Char} (hx : h <:+: x) : h <:+: rest ++ '\n' :: (t ++ x) :=
  ((hx.trans (List.suffix_append _ _).isInfix).trans (List.suffix_cons _ _).isInfix).trans
    (List.suffix_append _ _).isInfix

theorem cut_framework_behindSample : cut frameworkSection.heading behindSample =
    some (['\n'] ++ instructionsSection.heading ++ rulesText, behindFramework) := by
  rw [List.append_assoc]
  exact cut_behind_rules cut_instructions cut_framework
    (framework_isHeading.not_infix_of_no_sign (by decide))

theorem cut_outputFormat_behindSample : ∃ t, cut outputFormatSection.heading behindSample =
    some (t ++ itemsText, behindOutputFormat) := by
  refine ⟨['\n'] ++ instructionsSection.heading ++ rulesText ++ frameworkSection.heading, ?_⟩
  simp only [List.append_assoc]
  exact cut_behind_items cut_instructions cut_framework cut_outputFormat
    (outputFormat_isHeading.not_infix_of_no_sign (by decide))
    (not_infix_rulesText outputFormat_isHeading (by decide))

/-- Behind a heading of the framework the next one is found, in the sample or behind it. -/
theorem itemsFit_iff (rest : List Char) : ∃ x₆ y₆,
    cut outputFormatSection.heading (rest ++ '\n' :: behindSample) = some (x₆, y₆) ∧
      ((∀ line ∈ requiredFrameworkItems, line <:+: x₆) ∧
        (∀ line ∈ requiredOutputFormatLines, line <:+: y₆) ↔ ItemsFit rest) := by
  unfold ItemsFit
  cases h₆ : cut outputFormatSection.heading rest with
  | none =>
    obtain ⟨t, ht⟩ := cut_outputFormat_behindSample
    refine ⟨rest ++ '\n' :: (t ++ itemsText), behindOutputFormat, ?_, ?_⟩
    · rw [cut_skip outputFormat_isHeading.ne_nil (outputFormat_isHeading.no_newline (by decide))
        (cut_eq_none h₆), ht]
      rfl
    · exact iff_of_true
        ⟨fun line hline => infix_behind (infix_itemsText line hline), infix_behindFormat⟩ trivial
  | some parts =>
    obtain ⟨items, after⟩ := parts
    refine ⟨items, after ++ '\n' :: behindSample, cut_append h₆ _, and_iff_left fun line hline => ?_⟩
    exact (infix_behindFormat line hline).trans ((suffix_behindSample.isInfix.trans
      (List.suffix_cons _ _).isInfix).trans (List.suffix_append _ _).isInfix)

/-- Behind a heading of the rules. -/
theorem rulesFit_iff (rest : List Char) : ∃ x₅ y₅ x₆ y₆,
    cut frameworkSection.heading (rest ++ '\n' :: behindSample) = some (x₅, y₅) ∧
      cut outputFormatSection.heading y₅ = some (x₆, y₆) ∧
      (¬ outputFormatSection.heading <:+: x₅ ∧ (∀ line ∈ requiredInstructionLines, line <:+: x₅) ∧
        (∀ line ∈ requiredFrameworkItems, line <:+: x₆) ∧
        (∀ line ∈ requiredOutputFormatLines, line <:+: y₆) ↔ RulesFit rest) := by
  unfold RulesFit
  cases h₅ : cut frameworkSection.heading rest with
  | none =>
    refine ⟨rest ++ '\n' :: (['\n'] ++ instructionsSection.heading ++ rulesText), behindFramework, _, _,
      ?_, cut_outputFormat, ?_⟩
    · rw [cut_skip framework_isHeading.ne_nil (framework_isHeading.no_newline (by decide))
        (cut_eq_none h₅), cut_framework_behindSample]
      rfl
    · have hbehind : ¬ outputFormatSection.heading <:+:
          ['\n'] ++ instructionsSection.heading ++ rulesText := by
        rw [List.append_assoc, outputFormat_isHeading.infix_heading_append_iff instructions_isHeading
          (by decide) (by decide), not_or]
        exact ⟨outputFormat_isHeading.not_infix_of_no_sign (by decide),
          not_infix_rulesText outputFormat_isHeading (by decide)⟩
      rw [infix_append_iff outputFormat_isHeading.ne_nil
        (outputFormat_isHeading.no_newline (by decide)), or_iff_left hbehind]
      exact and_iff_left ⟨fun line hline => infix_behind (infix_rulesText line hline), infix_itemsText,
        infix_behindFormat⟩
  | some parts =>
    obtain ⟨rules, after⟩ := parts
    obtain ⟨x₆, y₆, h₆, hiff⟩ := itemsFit_iff after
    exact ⟨rules, after ++ '\n' :: behindSample, x₆, y₆, cut_append h₅ _, h₆,
      and_congr_right fun _ => and_congr_right fun _ => hiff⟩

/-- Without a heading of the rules in the sample it is the one behind it. -/
theorem cut_of_sample {sample : List Char} (h : cut instructionsSection.heading sample = none) :
    cut instructionsSection.heading (sample ++ '\n' :: behindSample) =
      some (sample ++ ['\n', '\n'], behindInstructions) := by
  rw [cut_skip instructions_isHeading.ne_nil (instructions_isHeading.no_newline (by decide))
    (cut_eq_none h), cut_instructions]
  rfl

/-- The headings are always found one behind the other, the last of them behind the sample. -/
theorem exists_cuts (compiled : CompiledJungianPrompt) : ∃ x₄ y₄ x₅ y₅ x₆ y₆,
    cut instructionsSection.heading (fromSample compiled) = some (x₄, y₄) ∧
      cut frameworkSection.heading y₄ = some (x₅, y₅) ∧
      cut outputFormatSection.heading y₅ = some (x₆, y₆) := by
  cases h₄ : cut instructionsSection.heading compiled.summary.rawTextSample.toList with
  | none => exact ⟨_, _, _, _, _, _, cut_of_sample h₄, cut_framework, cut_outputFormat⟩
  | some parts =>
    obtain ⟨x₅, y₅, x₆, y₆, h₅, h₆, -⟩ := rulesFit_iff parts.2
    exact ⟨_, _, x₅, y₅, x₆, y₆, cut_append h₄ _, h₅, h₆⟩

/-- The sample decides which prompt of single lines is accepted. -/
theorem accepted_iff_headingsFit (hcompiled : compiled =
      compileJungianPrompt sessionSummary dreams lastActivityAt sessionCreatedAt)
    (hg : Grounded compiled) (hcount : sessionSummary.dreamCount < 10 ^ maxStrDigits)
    (hdreams : validateDreamSection (stripNewlines (unlines ([] :: dreamLines compiled.dreams ++ [[]])))
      sessionSummary.dreamCount = .ok none)
    (hone : OneLine compiled.summary.rawTextSample.toList)
    (hne : compiled.summary.rawTextSample.toList ≠ []) :
    Accepted (renderCompiledPrompt compiled) ↔ HeadingsFit compiled.summary.rawTextSample.toList := by
  generalize hsample : compiled.summary.rawTextSample.toList = sample at hone hne
  have htext : fromSample compiled = sample ++ '\n' :: behindSample := by rw [fromSample, hsample]
  unfold HeadingsFit
  cases h₄ : cut instructionsSection.heading sample with
  | none =>
    -- the sections are the ones that were put in
    have hcut : cut instructionsSection.heading (fromSample compiled) =
        some (sample ++ ['\n', '\n'], behindInstructions) := htext ▸ cut_of_sample h₄
    have hin : ∀ {h : List Char} {k : Char}, IsHeading k h → k ≠ '\n' →
        (h <:+: sample ++ ['\n', '\n'] ↔ h <:+: sample) := fun hh hk => by
      rw [infix_append_iff hh.ne_nil (hh.no_newline hk)]
      exact or_iff_left (hh.not_infix_of_no_sign (by decide))
    rw [accepted_iff_cuts hcompiled hg hcount hdreams hcut cut_framework cut_outputFormat,
      summaryBody_valid_iff hg.summary hone (by simp)]
    constructor
    · rintro ⟨horder, -⟩
      exact ⟨(hin framework_isHeading (by decide)).not.mp horder.framework,
        (hin outputFormat_isHeading (by decide)).not.mp horder.outputFormat⟩
    · rintro ⟨hframework, houtput⟩
      exact ⟨⟨(hin framework_isHeading (by decide)).not.mpr hframework,
        (hin outputFormat_isHeading (by decide)).not.mpr houtput,
        not_infix_rulesText outputFormat_isHeading (by decide)⟩, hne, infix_rulesText, infix_itemsText,
        infix_behindFormat⟩
  | some parts =>
    -- the rest of the sample is taken for the start of the rules
    obtain ⟨before, rest⟩ := parts
    have hcut : cut instructionsSection.heading (fromSample compiled) =
        some (before, rest ++ '\n' :: behindSample) := htext ▸ cut_append h₄ _
    have hbefore : OneLine before := fun c hc =>
      hone c (by rw [cut_eq_some h₄]; exact List.mem_append_left _ hc)
    obtain ⟨x₅, y₅, x₆, y₆, h₅, h₆, hiff⟩ := rulesFit_iff rest
    have hvalid := summaryBody_valid_iff hg.summary hbefore (w := []) (by simp)
    rw [List.append_nil] at hvalid
    rw [accepted_iff_cuts hcompiled hg hcount hdreams hcut h₅ h₆, hvalid]
    constructor
    · rintro ⟨horder, hne, hrules, hitems, hformat⟩
      exact ⟨hne, horder.framework, horder.outputFormat,
        hiff.mp ⟨horder.afterRules, hrules, hitems, hformat⟩⟩
    · rintro ⟨hne, hframework, houtput, hfit⟩
      obtain ⟨hafter, hrules, hitems, hformat⟩ := hiff.mpr hfit
      exact ⟨⟨hframework, houtput, hafter⟩, hne, hrules, hitems, hformat⟩

end Fit

end LiberNovus.Prompts

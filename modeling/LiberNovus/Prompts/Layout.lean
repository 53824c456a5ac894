import LiberNovus.Prompts.DreamLog
import LiberNovus.Prompts.FixedText

/-! The lines of a built prompt up to each of its headings. Where the texts have none of the later
headings, the sections that the validator takes out are the ones that were put in. -/

namespace LiberNovus.Prompts

open Text Search Results Session

/-! ### The order of the sections -/

section Order

variable {prompt h : List Char}

theorem index_eq_ok {n : ℕ} :
    index h prompt = .ok n ↔ ∃ x y, cut h prompt = some (x, y) ∧ x.length = n := by
  rw [index]
  split
  · next hcut => simp [hcut]
  · next x y hcut => simp [hcut]

theorem validateSectionOrder_eq_ok : validateSectionOrder prompt = .ok none ↔
    ∃ p₁ p₂ p₃ p₄ p₅ p₆, index contextSection.heading prompt = .ok p₁ ∧
      index dreamSection.heading prompt = .ok p₂ ∧ index summarySection.heading prompt = .ok p₃ ∧
      index instructionsSection.heading prompt = .ok p₄ ∧
      index frameworkSection.heading prompt = .ok p₅ ∧
      index outputFormatSection.heading prompt = .ok p₆ ∧
      [p₁, p₂, p₃, p₄, p₅, p₆].Pairwise (· ≤ ·) := by
  simp only [validateSectionOrder, sections, List.mapM_cons, List.mapM_nil, bind_eq_ok, pure,
    Except.pure, Except.ok.injEq]
  constructor
  · rintro ⟨ps, ⟨p₁, h₁, _, ⟨p₂, h₂, _, ⟨p₃, h₃, _, ⟨p₄, h₄, _, ⟨p₅, h₅, _, ⟨p₆, h₆, _, rfl, rfl⟩,
      rfl⟩, rfl⟩, rfl⟩, rfl⟩, rfl⟩, hsorted⟩
    refine ⟨p₁, p₂, p₃, p₄, p₅, p₆, h₁, h₂, h₃, h₄, h₅, h₆, ?_⟩
    have heq := (ite_eq_right_iff.mp hsorted)
    rw [Decidable.of_not_not fun hne => absurd (heq hne) (by simp)]
    exact List.pairwise_insertionSort _ _
  · rintro ⟨p₁, p₂, p₃, p₄, p₅, p₆, h₁, h₂, h₃, h₄, h₅, h₆, hsorted⟩
    refine ⟨_, ⟨p₁, h₁, _, ⟨p₂, h₂, _, ⟨p₃, h₃, _, ⟨p₄, h₄, _, ⟨p₅, h₅, _, ⟨p₆, h₆, _, rfl, rfl⟩,
      rfl⟩, rfl⟩, rfl⟩, rfl⟩, rfl⟩, ?_⟩
    rw [if_neg]
    rw [not_not]
    exact (List.Pairwise.insertionSort_eq hsorted).symm

/-- Before a heading that comes first there is no other one. -/
theorem not_infix_of_le {h' A B : List Char} {n n' : ℕ} (hcut : cut h prompt = some (A, B))
    (hne : h' ≠ []) (hn : index h prompt = .ok n) (hn' : index h' prompt = .ok n') (hle : n ≤ n') :
    ¬ h' <:+: A := by
  rintro ⟨a, b, rfl⟩
  obtain ⟨x, y, hx, rfl⟩ := index_eq_ok.mp hn
  obtain ⟨x', y', hx', rfl⟩ := index_eq_ok.mp hn'
  rw [hcut] at hx
  cases hx
  have hfirst := cut_le hx' (a := a) (b := b ++ (h ++ B)) (by simpa using cut_eq_some hcut)
  have hlen := List.length_pos_iff.mpr hne
  simp only [List.length_append] at hle
  omega

end Order

/-! ### The lines before a heading -/

def upToDreams (compiled : CompiledJungianPrompt) : List (List Char) :=
  [promptPrefix, []] ++ contextSection.heading :: (contextLines compiled.context ++ [[]])

def upToSummary (compiled : CompiledJungianPrompt) : List (List Char) :=
  upToDreams compiled ++ dreamSection.heading :: dreamLines compiled.dreams

def upToInstructions (compiled : CompiledJungianPrompt) : List (List Char) :=
  upToSummary compiled ++ summarySection.heading :: (summaryLines compiled.summary ++ [[]])

def upToFramework (compiled : CompiledJungianPrompt) : List (List Char) :=
  upToInstructions compiled ++ instructionsSection.heading :: (instructionLines ++ [[]])

def upToOutputFormat (compiled : CompiledJungianPrompt) : List (List Char) :=
  upToFramework compiled ++ frameworkSection.heading :: (frameworkLines ++ [[]])

theorem render_outputFormat (compiled : CompiledJungianPrompt) : renderCompiledPrompt compiled =
    unlines (upToOutputFormat compiled ++ outputFormatSection.heading :: outputFormatLines) := by
  simp only [renderCompiledPrompt, fixedLines, fixedAnalysisInstructions_eq,
    fixedAnalyticalFramework_eq, fixedOutputFormat_eq, upToOutputFormat, upToFramework,
    upToInstructions, upToSummary, upToDreams, List.append_assoc, List.cons_append, List.nil_append]

theorem render_framework (compiled : CompiledJungianPrompt) : renderCompiledPrompt compiled =
    unlines (upToFramework compiled ++ frameworkSection.heading :: ((frameworkLines ++ [[]]) ++
      outputFormatSection.heading :: outputFormatLines)) := by
  rw [render_outputFormat, upToOutputFormat, List.append_assoc, List.cons_append]

theorem render_instructions (compiled : CompiledJungianPrompt) : renderCompiledPrompt compiled =
    unlines (upToInstructions compiled ++ instructionsSection.heading :: ((instructionLines ++ [[]]) ++
      frameworkSection.heading :: (frameworkLines ++ [[]] ++
        outputFormatSection.heading :: outputFormatLines))) := by
  rw [render_framework, upToFramework, List.append_assoc, List.cons_append]

theorem render_summary (compiled : CompiledJungianPrompt) : ∃ post, renderCompiledPrompt compiled =
    unlines (upToSummary compiled ++ summarySection.heading ::
      ((summaryLines compiled.summary ++ [[]]) ++ instructionsSection.heading :: post)) :=
  ⟨_, by rw [render_instructions, upToInstructions, List.append_assoc, List.cons_append]⟩

theorem render_dreams (compiled : CompiledJungianPrompt) : ∃ post, renderCompiledPrompt compiled =
    unlines (upToDreams compiled ++ dreamSection.heading ::
      (dreamLines compiled.dreams ++ summarySection.heading :: post)) := by
  obtain ⟨post, hpost⟩ := render_summary compiled
  exact ⟨_, by rw [hpost, upToSummary, List.append_assoc, List.cons_append]⟩

/-! ### Clean prompts -/

/-- The context is quiet, and neither the dreams nor the summary have a heading of a section
behind them. -/
structure Clean (compiled : CompiledJungianPrompt) : Prop where
  context : ∀ l ∈ contextLines compiled.context, Quiet l
  dreams : ∀ spec ∈ sections.drop 2, ∀ l ∈ dreamLines compiled.dreams, ¬ spec.heading <:+: l
  summary : ∀ spec ∈ sections.drop 3, ∀ l ∈ summaryLines compiled.summary, ¬ spec.heading <:+: l

section NotInfix

variable {compiled : CompiledJungianPrompt} {h : List Char} {k : Char}

theorem not_infix_upToDreams (hcontext : ∀ l ∈ contextLines compiled.context, Quiet l)
    (hh : IsHeading k h) (hk : k ≠ '1') : ∀ l ∈ upToDreams compiled, ¬ h <:+: l := by
  simp only [upToDreams, List.cons_append, List.nil_append, List.forall_mem_cons,
    List.forall_mem_append]
  exact ⟨hh.not_infix_quiet quiet_promptPrefix, hh.not_infix_quiet quiet_nil,
    hh.not_infix context_isHeading hk (by decide), not_infix_of_quiet hcontext hh,
    hh.not_infix_quiet quiet_nil, by simp⟩

theorem not_infix_upToSummary (hcontext : ∀ l ∈ contextLines compiled.context, Quiet l)
    (hdreams : ∀ l ∈ dreamLines compiled.dreams, ¬ h <:+: l) (hh : IsHeading k h) (hk : k ≠ '1')
    (hk' : k ≠ '2') : ∀ l ∈ upToSummary compiled, ¬ h <:+: l := by
  simp only [upToSummary, List.forall_mem_append, List.forall_mem_cons]
  exact ⟨not_infix_upToDreams hcontext hh hk, hh.not_infix dream_isHeading hk' (by decide), hdreams⟩

theorem not_infix_upToInstructions (hcontext : ∀ l ∈ contextLines compiled.context, Quiet l)
    (hdreams : ∀ l ∈ dreamLines compiled.dreams, ¬ h <:+: l)
    (hsummary : ∀ l ∈ summaryLines compiled.summary, ¬ h <:+: l) (hh : IsHeading k h)
    (hk : k ∉ ['1', '2', '3']) : ∀ l ∈ upToInstructions compiled, ¬ h <:+: l := by
  simp only [List.mem_cons, not_or] at hk
  simp only [upToInstructions, List.forall_mem_append, List.forall_mem_cons]
  exact ⟨not_infix_upToSummary hcontext hdreams hh hk.1 hk.2.1,
    hh.not_infix summary_isHeading hk.2.2.1 (by decide), hsummary, hh.not_infix_quiet quiet_nil,
    by simp⟩

theorem Clean.not_infix_upToSummary (hc : Clean compiled) :
    ∀ l ∈ upToSummary compiled, ¬ summarySection.heading <:+: l :=
  Prompts.not_infix_upToSummary hc.context (hc.dreams _ (by simp [sections])) summary_isHeading
    (by decide) (by decide)

theorem Clean.not_infix_upToInstructions (hc : Clean compiled) {spec : SectionSpec}
    (hspec : spec ∈ sections.drop 3) (hh : IsHeading k spec.heading) (hk : k ∉ ['1', '2', '3']) :
    ∀ l ∈ upToInstructions compiled, ¬ spec.heading <:+: l :=
  Prompts.not_infix_upToInstructions hc.context
    (hc.dreams spec (List.mem_of_mem_drop (i := 1) (by simpa using hspec)))
    (hc.summary spec hspec) hh hk

theorem Clean.not_infix_upToFramework (hc : Clean compiled) {spec : SectionSpec}
    (hspec : spec ∈ sections.drop 3) (hh : IsHeading k spec.heading)
    (hk : k ∉ ['1', '2', '3', '4']) : ∀ l ∈ upToFramework compiled, ¬ spec.heading <:+: l := by
  have hk' : k ∉ ['1', '2', '3'] := fun h => hk (by simp at h ⊢; tauto)
  have hk'' : k ≠ '4' := by
    rintro rfl
    simp at hk
  simp only [upToFramework, List.forall_mem_append, List.forall_mem_cons]
  exact ⟨hc.not_infix_upToInstructions hspec hh hk',
    hh.not_infix instructions_isHeading hk'' (by decide),
    not_infix_of_quiet quiet_instructionLines hh, hh.not_infix_quiet quiet_nil, by simp⟩

theorem Clean.not_infix_upToOutputFormat (hc : Clean compiled) :
    ∀ l ∈ upToOutputFormat compiled, ¬ outputFormatSection.heading <:+: l := by
  simp only [upToOutputFormat, List.forall_mem_append, List.forall_mem_cons]
  exact ⟨hc.not_infix_upToFramework (by simp [sections]) outputFormat_isHeading (by decide),
    outputFormat_isHeading.not_infix framework_isHeading (by decide) (by decide),
    not_infix_of_quiet quiet_frameworkLines outputFormat_isHeading,
    outputFormat_isHeading.not_infix_quiet quiet_nil, by simp⟩

end NotInfix

/-! ### The bodies -/

section Sections

variable {compiled : CompiledJungianPrompt} {h : List Char} {k : Char} {pre : List (List Char)}

theorem index_heading (hh : IsHeading k h) (hk : k ≠ '\n') (hpre : ∀ l ∈ pre, ¬ h <:+: l)
    (post : List (List Char)) :
    index h (unlines (pre ++ h :: post)) = .ok (unlines (pre ++ [[]])).length := by
  rw [index, cut_heading hh hk hpre]

theorem length_unlines_le (pre mid : List (List Char)) :
    (unlines (pre ++ [[]])).length ≤ (unlines (pre ++ (mid ++ [[]]))).length := by
  induction pre with
  | nil => simp [unlines, join]
  | cons l pre ih =>
    rw [List.cons_append, List.cons_append, unlines_cons (by simp), unlines_cons (by simp)]
    simpa using ih

/-- The first three headings are found where they were put, if no text has the third. -/
theorem index_first (hcontext : ∀ l ∈ contextLines compiled.context, Quiet l)
    (hdreams : ∀ l ∈ dreamLines compiled.dreams, ¬ summarySection.heading <:+: l) :
    index contextSection.heading (renderCompiledPrompt compiled) =
        .ok (unlines ([promptPrefix, []] ++ [[]])).length ∧
      index dreamSection.heading (renderCompiledPrompt compiled) =
        .ok (unlines (upToDreams compiled ++ [[]])).length ∧
      index summarySection.heading (renderCompiledPrompt compiled) =
        .ok (unlines (upToSummary compiled ++ [[]])).length := by
  refine ⟨?_, ?_, ?_⟩
  · have hpre : ∀ l ∈ [promptPrefix, []], ¬ contextSection.heading <:+: l := by
      simp only [List.forall_mem_cons]
      exact ⟨context_isHeading.not_infix_quiet quiet_promptPrefix,
        context_isHeading.not_infix_quiet quiet_nil, by simp⟩
    rw [renderCompiledPrompt_eq]
    exact index_heading context_isHeading (by decide) hpre _
  · obtain ⟨post, hpost⟩ := render_dreams compiled
    rw [hpost]
    exact index_heading dream_isHeading (by decide)
      (not_infix_upToDreams hcontext dream_isHeading (by decide)) _
  · obtain ⟨post, hpost⟩ := render_summary compiled
    rw [hpost]
    exact index_heading summary_isHeading (by decide)
      (not_infix_upToSummary hcontext hdreams summary_isHeading (by decide) (by decide)) _

theorem Clean.order (hc : Clean compiled) :
    validateSectionOrder (renderCompiledPrompt compiled) = .ok none := by
  obtain ⟨h₁, h₂, h₃⟩ := index_first hc.context (hc.dreams _ (by simp [sections]))
  have h₄ : index instructionsSection.heading (renderCompiledPrompt compiled) =
      .ok (unlines (upToInstructions compiled ++ [[]])).length := by
    rw [render_instructions]
    exact index_heading instructions_isHeading (by decide)
      (hc.not_infix_upToInstructions (by simp [sections]) instructions_isHeading (by decide)) _
  have h₅ : index frameworkSection.heading (renderCompiledPrompt compiled) =
      .ok (unlines (upToFramework compiled ++ [[]])).length := by
    rw [render_framework]
    exact index_heading framework_isHeading (by decide)
      (hc.not_infix_upToFramework (by simp [sections]) framework_isHeading (by decide)) _
  have h₆ : index outputFormatSection.heading (renderCompiledPrompt compiled) =
      .ok (unlines (upToOutputFormat compiled ++ [[]])).length := by
    rw [render_outputFormat]
    exact index_heading outputFormat_isHeading (by decide) hc.not_infix_upToOutputFormat _
  refine validateSectionOrder_eq_ok.mpr ⟨_, _, _, _, _, _, h₁, h₂, h₃, h₄, h₅, h₆, ?_⟩
  have hle : ∀ pre mid : List (List Char),
      (unlines (pre ++ [[]])).length ≤ (unlines (pre ++ mid ++ [[]])).length := by
    intro pre mid
    rw [List.append_assoc]
    exact length_unlines_le pre mid
  have l₁ : (unlines ([promptPrefix, []] ++ [[]])).length ≤
      (unlines (upToDreams compiled ++ [[]])).length := hle _ _
  have l₂ : (unlines (upToDreams compiled ++ [[]])).length ≤
      (unlines (upToSummary compiled ++ [[]])).length := hle _ _
  have l₃ : (unlines (upToSummary compiled ++ [[]])).length ≤
      (unlines (upToInstructions compiled ++ [[]])).length := hle _ _
  have l₄ : (unlines (upToInstructions compiled ++ [[]])).length ≤
      (unlines (upToFramework compiled ++ [[]])).length := hle _ _
  have l₅ : (unlines (upToFramework compiled ++ [[]])).length ≤
      (unlines (upToOutputFormat compiled ++ [[]])).length := hle _ _
  rw [← List.isChain_iff_pairwise]
  simp only [List.isChain_cons_cons]
  exact ⟨l₁, l₂, l₃, l₄, l₅, .singleton _⟩

theorem dreamsBody (hcontext : ∀ l ∈ contextLines compiled.context, Quiet l)
    (hdreams : ∀ l ∈ dreamLines compiled.dreams, ¬ summarySection.heading <:+: l) :
    extractSectionBody (renderCompiledPrompt compiled) dreamSection.heading
      (some summarySection.heading) =
        .ok (stripNewlines (unlines ([] :: dreamLines compiled.dreams ++ [[]]))) := by
  obtain ⟨post, hpost⟩ := render_dreams compiled
  rw [hpost, extractSectionBody_lines dream_isHeading (by decide) summary_isHeading (by decide)
    (not_infix_upToDreams hcontext dream_isHeading (by decide)) hdreams (cut_self _)]

theorem Clean.summaryBody (hc : Clean compiled) :
    extractSectionBody (renderCompiledPrompt compiled) summarySection.heading
      (some instructionsSection.heading) =
        .ok (stripNewlines (unlines ([] :: (summaryLines compiled.summary ++ [[]]) ++ [[]]))) := by
  obtain ⟨post, hpost⟩ := render_summary compiled
  have hmid : ∀ l ∈ summaryLines compiled.summary ++ [[]], ¬ instructionsSection.heading <:+: l := by
    simp only [List.forall_mem_append, List.forall_mem_cons]
    exact ⟨hc.summary _ (by simp [sections]), instructions_isHeading.not_infix_quiet quiet_nil,
      by simp⟩
  rw [hpost, extractSectionBody_lines summary_isHeading (by decide) instructions_isHeading
    (by decide) hc.not_infix_upToSummary hmid (cut_self _)]

/-- The lines of a fixed section, between empty ones. -/
theorem stripNewlines_fixed {ls : List (List Char)} (hls : Bounded ls) :
    stripNewlines (unlines ([] :: (ls ++ [[]]) ++ [[]])) = unlines ls := by
  have hlines : unlines ([] :: (ls ++ [[]]) ++ [[]]) = ['\n'] ++ (unlines ls ++ ['\n', '\n']) := by
    rw [List.cons_append, List.append_assoc, unlines_cons ?_, unlines_append hls.ne_nil (by simp)]
    · simp
    · simp
  rw [hlines]
  exact hls.stripNewlines (by simp) (by simp)

theorem Clean.instructionsBody (hc : Clean compiled) :
    extractSectionBody (renderCompiledPrompt compiled) instructionsSection.heading
      (some frameworkSection.heading) = .ok (unlines instructionLines) := by
  have hmid : ∀ l ∈ instructionLines ++ [[]], ¬ frameworkSection.heading <:+: l := by
    simp only [List.forall_mem_append, List.forall_mem_cons]
    exact ⟨not_infix_of_quiet quiet_instructionLines framework_isHeading,
      framework_isHeading.not_infix_quiet quiet_nil, by simp⟩
  rw [render_instructions, extractSectionBody_lines instructions_isHeading (by decide)
    framework_isHeading (by decide)
    (hc.not_infix_upToInstructions (by simp [sections]) instructions_isHeading (by decide)) hmid
    (cut_self _), stripNewlines_fixed bounded_instructionLines]

theorem Clean.frameworkBody (hc : Clean compiled) :
    extractSectionBody (renderCompiledPrompt compiled) frameworkSection.heading
      (some outputFormatSection.heading) = .ok (unlines frameworkLines) := by
  have hmid : ∀ l ∈ frameworkLines ++ [[]], ¬ outputFormatSection.heading <:+: l := by
    simp only [List.forall_mem_append, List.forall_mem_cons]
    exact ⟨not_infix_of_quiet quiet_frameworkLines outputFormat_isHeading,
      outputFormat_isHeading.not_infix_quiet quiet_nil, by simp⟩
  rw [render_framework, extractSectionBody_lines framework_isHeading (by decide)
    outputFormat_isHeading (by decide)
    (hc.not_infix_upToFramework (by simp [sections]) framework_isHeading (by decide)) hmid
    (cut_self _), stripNewlines_fixed bounded_frameworkLines]

theorem Clean.outputFormatBody (hc : Clean compiled) :
    extractSectionBody (renderCompiledPrompt compiled) outputFormatSection.heading none =
      .ok (unlines outputFormatLines) := by
  have hfirst := bounded_outputFormatLines.ends
  have hdrop : (unlines ([] :: outputFormatLines)).dropWhile (· == '\n') =
      unlines outputFormatLines := by
    obtain ⟨c, t, ht⟩ := List.exists_cons_of_ne_nil hfirst.1
    rw [ht] at hfirst
    rw [unlines_cons bounded_outputFormatLines.ne_nil, List.nil_append, ht,
      List.dropWhile_cons_of_pos (by simp), List.dropWhile_cons_of_neg]
    simpa using ne_newline_of_not_isSpace (hfirst.2.1 c rfl)
  simp only [extractSectionBody, render_outputFormat,
    cut_heading outputFormat_isHeading (by decide) hc.not_infix_upToOutputFormat, hdrop]

theorem validateFixedSection_eq_none {body : List Char} {requiredLines : List (List Char)}
    {error : List Char → StructuralValidationError} :
    validateFixedSection body requiredLines error = none ↔ ∀ line ∈ requiredLines, line <:+: body := by
  rw [validateFixedSection, Option.map_eq_none_iff, List.find?_eq_none]
  simp only [decide_eq_true_eq, not_not]

/-- Every section is in the prompt. -/
theorem infix_heading (compiled : CompiledJungianPrompt) :
    ∀ spec ∈ sections, spec.heading <:+: renderCompiledPrompt compiled := by
  rw [render_outputFormat]
  simp only [sections, List.forall_mem_cons]
  refine ⟨?_, ?_, ?_, ?_, ?_, ?_, by simp⟩ <;> refine infix_of_mem_unlines ?_ <;>
    simp [upToOutputFormat, upToFramework, upToInstructions, upToSummary, upToDreams]

theorem starts_promptPrefix (compiled : CompiledJungianPrompt) :
    promptPrefix <+: renderCompiledPrompt compiled := by
  rw [renderCompiledPrompt_eq]
  obtain ⟨r, hr⟩ := unlines_cons_append ([] :: contextSection.heading ::
    ((contextLines compiled.context ++ [[]]) ++ dreamSection.heading ::
      (dreamLines compiled.dreams ++ summarySection.heading :: tailLines compiled)))
  exact ⟨r, (hr _).symm⟩

end Sections

/-! ### The log -/

section Log

variable {compiled : CompiledJungianPrompt}

/-- The body of the log reaches to the first heading of the summary, which may stand in a text. -/
theorem logBody (hcontext : ∀ l ∈ contextLines compiled.context, Quiet l)
    (hne : compiled.dreams ≠ []) : ∃ tail before after,
      cut summarySection.heading (logText compiled.dreams ++ (summarySection.heading ++ tail)) =
          some (before, after) ∧
        extractSectionBody (renderCompiledPrompt compiled) dreamSection.heading
          (some summarySection.heading) = .ok (before.rdropWhile (· == '\n')) := by
  obtain ⟨post, hpost⟩ := render_dreams compiled
  obtain ⟨tail, htail⟩ := unlines_cons_append post
  set log := logText compiled.dreams ++ (summarySection.heading ++ tail) with hlog
  have hrest : unlines ([] :: (dreamLines compiled.dreams ++ summarySection.heading :: post)) =
      ['\n'] ++ log := by
    rw [unlines_cons (by simp), dreamLines, if_neg hne, unlines_log (List.cons_ne_nil _ _), htail]
    rfl
  have hin : summarySection.heading <:+: log :=
    (List.prefix_append _ tail).isInfix.trans (List.suffix_append _ _).isInfix
  obtain ⟨⟨before, after⟩, hcut⟩ := Option.isSome_iff_exists.mp (cut_isSome_iff.mpr hin)
  obtain ⟨c, r, rfl, hc⟩ : ∃ c r, before = c :: r ∧ c ≠ '\n' := by
    obtain ⟨u, hu⟩ := logText_ne_nil hne (summarySection.heading ++ tail)
    have hsplit := cut_eq_some hcut
    rw [hlog, hu] at hsplit
    cases before with
    | nil =>
      obtain ⟨r, hr, -⟩ := summary_isHeading
      rw [hr] at hsplit
      exact absurd (List.cons_eq_cons.mp hsplit).1 (by decide)
    | cons c r =>
      refine ⟨c, r, rfl, ?_⟩
      rw [← (List.cons_eq_cons.mp hsplit).1]
      decide
  have hstrip : stripNewlines (['\n'] ++ c :: r) = (c :: r).rdropWhile (· == '\n') := by
    rw [stripNewlines, List.singleton_append, List.dropWhile_cons_of_pos (by simp),
      List.dropWhile_cons_of_neg (by simpa using hc)]
  refine ⟨tail, _, after, hcut, ?_⟩
  rw [hpost]
  simp only [extractSectionBody, cut_heading dream_isHeading (by decide)
    (not_infix_upToDreams hcontext dream_isHeading (by decide)), hrest,
    summary_isHeading.cut_append (show '#' ∉ ['\n'] by decide), hcut, Option.map_some, hstrip]

end Log

/-! ### Acceptance -/

section Acceptance

variable {sessionSummary : SessionSummary} {dreams : List Dream}
  {lastActivityAt sessionCreatedAt : Option Time} {compiled : CompiledJungianPrompt}

/-- The checks of the sections that an accepted prompt passes. -/
theorem valid_of_accepted (hcompiled : compiled =
    compileJungianPrompt sessionSummary dreams lastActivityAt sessionCreatedAt)
    (h : Accepted (renderCompiledPrompt compiled)) :
    validateSectionOrder (renderCompiledPrompt compiled) = .ok none ∧
      (∃ body, extractSectionBody (renderCompiledPrompt compiled) dreamSection.heading
          (some summarySection.heading) = .ok body ∧
        validateDreamSection body sessionSummary.dreamCount = .ok none) ∧
      ∃ body, extractSectionBody (renderCompiledPrompt compiled) summarySection.heading
          (some instructionsSection.heading) = .ok body ∧
        validateSummarySection body summarySection.fields = none := by
  obtain ⟨-, -, horder, hsections⟩ := accepted_iff.mp h
  obtain ⟨bodies, n, hvalid⟩ := validateSections_eq_nil.mp hsections
  refine ⟨horder, ⟨bodies.dreams, bodies.ofDreams, ?_⟩, bodies.summary, bodies.ofSummary,
    hvalid.summary⟩
  have hq := quiet_contextLines sessionSummary dreams lastActivityAt sessionCreatedAt
  rw [← hcompiled] at hq
  have hbody := bodies.ofContext
  rw [contextBody hq] at hbody
  have hcount := hvalid.count
  rw [← Except.ok.inj hbody, dreamCount_context sessionSummary dreams lastActivityAt
    sessionCreatedAt (congrArg CompiledJungianPrompt.context hcompiled), intOfDigits_toString] at hcount
  split at hcount
  · have hsame : compiled.context.dreamCount = sessionSummary.dreamCount := by rw [hcompiled]; rfl
    have hn : n = sessionSummary.dreamCount := by
      rw [← hsame]
      exact (Except.ok.inj hcount).symm
    rw [← hn]
    exact hvalid.dreams
  · cases hcount

theorem validateContextSection_context (hcompiled : compiled =
    compileJungianPrompt sessionSummary dreams lastActivityAt sessionCreatedAt) :
    validateContextSection (unlines (contextLines compiled.context)) contextSection.fields = none := by
  have hfields := fieldLines_context sessionSummary dreams lastActivityAt sessionCreatedAt
    (congrArg CompiledJungianPrompt.context hcompiled)
  have hnames : (fieldLines (unlines (contextLines compiled.context))).map Prod.fst =
      contextSection.fields.map SectionFieldSpec.name := by
    rw [hfields]
    rfl
  exact validateFields_eq_none hnames

/-- The number of dreams is read back. -/
theorem pyInt_dreamCount (hcompiled : compiled =
      compileJungianPrompt sessionSummary dreams lastActivityAt sessionCreatedAt)
    (hcount : sessionSummary.dreamCount < 10 ^ maxStrDigits) :
    pyInt ((getField (fieldLines (unlines (contextLines compiled.context)))
      "dream_count".toList).getD ['0']) = .ok (sessionSummary.dreamCount : ℤ) := by
  have hcontext := congrArg CompiledJungianPrompt.context hcompiled
  have hsame : compiled.context.dreamCount = sessionSummary.dreamCount := by rw [hcompiled]; rfl
  rw [dreamCount_context sessionSummary dreams lastActivityAt sessionCreatedAt hcontext, hsame,
    intOfDigits_toString, if_pos hcount]
  rfl

/-- A clean prompt is accepted when the log and the summary pass their checks. -/
theorem Clean.accepted (hcompiled : compiled =
    compileJungianPrompt sessionSummary dreams lastActivityAt sessionCreatedAt)
    (hc : Clean compiled) (hcount : sessionSummary.dreamCount < 10 ^ maxStrDigits)
    (hdreams : validateDreamSection (stripNewlines (unlines ([] :: dreamLines compiled.dreams ++ [[]])))
      sessionSummary.dreamCount = .ok none)
    (hsummary : validateSummarySection
      (stripNewlines (unlines ([] :: (summaryLines compiled.summary ++ [[]]) ++ [[]])))
      summarySection.fields = none) :
    Accepted (renderCompiledPrompt compiled) := by
  refine accepted_iff.mpr ⟨starts_promptPrefix compiled, infix_heading compiled, hc.order, ?_⟩
  exact validateSections_of_bodies (contextBody hc.context)
    (dreamsBody hc.context (hc.dreams _ (by simp [sections]))) hc.summaryBody
    hc.instructionsBody hc.frameworkBody hc.outputFormatBody (pyInt_dreamCount hcompiled hcount)
    (validateContextSection_context hcompiled) hdreams hsummary
    (validateFixedSection_eq_none.mpr required_instructions)
    (validateFixedSection_eq_none.mpr required_framework)
    (validateFixedSection_eq_none.mpr required_outputFormat)

end Acceptance

end LiberNovus.Prompts

import LiberNovus.Prompts.LexicalSafety
import LiberNovus.Prompts.Totality

/-! The verdict of `validate_prompt_safety` on the prompts that are built from dreams. The log of
the dreams is cut out before the words are judged, but the summary brings words of the user back.

Proved: the prompts of two lists of dreams, each with its own summary, get the same verdict if and
only if both summaries are innocuous or neither is. -/

namespace LiberNovus.Prompts

open Text Search Results Session Dialogue

/-! ### What is left of the prompt -/

/-- The lines of the prompt without the log. -/
def controlledLines (compiled : CompiledJungianPrompt) : List (List Char) :=
  upToDreams compiled ++ summarySection.heading :: tailLines compiled

section Controlled

variable {compiled : CompiledJungianPrompt}

/-- The log reaches from its heading to the next. -/
theorem controlled_eq (hcontext : ∀ l ∈ contextLines compiled.context, Quiet l)
    (hdreams : ∀ l ∈ dreamLines compiled.dreams, ¬ summarySection.heading <:+: l) :
    ∃ dreamStart dreamEnd, index dreamSection.heading (renderCompiledPrompt compiled) = .ok dreamStart ∧
      index summarySection.heading (renderCompiledPrompt compiled) = .ok dreamEnd ∧
      (renderCompiledPrompt compiled).take dreamStart ++ (renderCompiledPrompt compiled).drop dreamEnd =
        unlines (controlledLines compiled) := by
  obtain ⟨-, hstart, hend⟩ := index_first hcontext hdreams
  have hstartLines : renderCompiledPrompt compiled = unlines (upToDreams compiled ++ [[]]) ++
      unlines (dreamSection.heading :: (dreamLines compiled.dreams ++ summarySection.heading ::
        tailLines compiled)) := by
    rw [← unlines_split _ (List.cons_ne_nil _ _), renderCompiledPrompt_eq]
    simp only [upToDreams, List.append_assoc, List.cons_append, List.nil_append]
  have hendLines : renderCompiledPrompt compiled = unlines (upToSummary compiled ++ [[]]) ++
      unlines (summarySection.heading :: tailLines compiled) := by
    rw [← unlines_split _ (List.cons_ne_nil _ _), hstartLines,
      ← unlines_split _ (List.cons_ne_nil _ _), upToSummary, List.append_assoc, List.cons_append]
  refine ⟨_, _, hstart, hend, ?_⟩
  have htake := congrArg (List.take (unlines (upToDreams compiled ++ [[]])).length) hstartLines
  have hdrop := congrArg (List.drop (unlines (upToSummary compiled ++ [[]])).length) hendLines
  rw [List.take_left] at htake
  rw [List.drop_left] at hdrop
  rw [htake, hdrop]
  exact (unlines_split _ (List.cons_ne_nil _ _)).symm

end Controlled

/-! ### Its words -/

section Words

variable [CaseTable] [LawfulCaseTable] [LawfulLetters] {sessionSummary : SessionSummary}
  {dreams : List Dream} {lastActivityAt sessionCreatedAt : Option Time}
  {compiled : CompiledJungianPrompt}

omit [LawfulCaseTable] in
theorem harmless_of_mem_sections {spec : SectionSpec} (h : spec ∈ sections) : Harmless spec.heading :=
  (unmarked_headings spec h).harmless

omit [LawfulCaseTable] in
/-- The lines that are the same in every prompt. -/
theorem harmless_fixedLines : ∀ l ∈ fixedLines, Harmless l := by
  rw [fixedLines, fixedAnalysisInstructions_eq, fixedAnalyticalFramework_eq, fixedOutputFormat_eq]
  simp only [List.forall_mem_append, List.forall_mem_cons]
  exact ⟨⟨⟨⟨fun l hl => (unmarked_instructionLines l hl).harmless, harmless_nil,
    harmless_of_mem_sections (by simp [sections]), by simp⟩,
    fun l hl => (unmarked_frameworkLines l hl).harmless⟩, harmless_nil,
    harmless_of_mem_sections (by simp [sections]), by simp⟩,
    fun l hl => (unmarked_outputFormatLines l hl).harmless⟩

/-- Only the sample and the first words of the lists can fail. -/
theorem harmless_controlledLines (hcompiled : compiled =
      compileJungianPrompt sessionSummary dreams lastActivityAt sessionCreatedAt)
    (hkeys : ∀ v ∈ compiled.summary.keySymbols, ∀ c ∈ v.toList, Lowered c)
    (hwords : ∀ v ∈ compiled.summary.recurringWords, ∀ c ∈ v.toList, Lowered c) :
    (∀ l ∈ controlledLines compiled, Harmless l) ↔
      Harmless compiled.summary.rawTextSample.toList ∧
        ∀ words ∈ [compiled.summary.keySymbols, compiled.summary.recurringWords],
          ∀ word ∈ words.head?, startsPlaceholder word.toList = false := by
  have hcontext : ∀ l ∈ contextLines compiled.context, Harmless l := by
    rw [hcompiled]
    exact fun l hl => harmless_printed
      (printed_contextLines sessionSummary dreams lastActivityAt sessionCreatedAt l hl)
  have hfixed := harmless_fixedLines
  have hup : ∀ l ∈ upToDreams compiled, Harmless l := by
    simp only [upToDreams, List.cons_append, List.nil_append, List.forall_mem_cons,
      List.forall_mem_append]
    exact ⟨harmless_promptPrefix, harmless_nil, harmless_of_mem_sections (by simp [sections]),
      hcontext, harmless_nil, by simp⟩
  have hsummary : Harmless summarySection.heading := harmless_of_mem_sections (by simp [sections])
  have hinstructions : Harmless instructionsSection.heading :=
    harmless_of_mem_sections (by simp [sections])
  have hsample : Harmless ("raw_text_sample: ".toList ++ compiled.summary.rawTextSample.toList) ↔
      Harmless compiled.summary.rawTextSample.toList := harmless_sample _
  simp only [controlledLines, tailLines, summaryLines, List.forall_mem_append, List.forall_mem_cons,
    harmless_list keySymbols_isLabel hkeys, harmless_list recurringWords_isLabel hwords, hsample]
  constructor
  · rintro ⟨-, -, ⟨⟨hfirst, hsecond, hthird, -⟩, -⟩, -⟩
    exact ⟨hthird, hfirst, hsecond, by simp⟩
  · rintro ⟨hthird, hfirst, hsecond, -⟩
    exact ⟨hup, hsummary, ⟨⟨hfirst, hsecond, hthird, by simp⟩, harmless_nil, hinstructions, by simp⟩,
      hfixed⟩

/-- The rules have an anchor. -/
theorem lexicalSafety_controlledLines (compiled : CompiledJungianPrompt) :
    lexicalSafetyOnControlledText (unlines (controlledLines compiled)) = true ↔
      ∀ l ∈ controlledLines compiled, Harmless l := by
  have hline : "- Сон не имеет фиксированного значения.".toList ∈ instructionLines :=
    List.mem_map_of_mem (List.mem_of_getElem? (i := 5) rfl)
  have hmem : "- Сон не имеет фиксированного значения.".toList ∈ controlledLines compiled := by
    refine List.mem_append_right _ (List.mem_cons_of_mem _ (List.mem_append_right _ ?_))
    rw [fixedLines, fixedAnalysisInstructions_eq]
    simp only [List.append_assoc]
    exact List.mem_append_left _ hline
  have hbasic : ∀ c ∈ "- Сон не имеет фиксированного значения.".toList, isBasic c = true :=
    of_literal (P := fun l => ∀ c ∈ l, isBasic c = true) rfl (by decide)
  have hanchor : "сон не имеет фиксированного значения".toList ∈ requiredInstructionAnchors :=
    List.mem_cons_self
  refine lexicalSafety_unlines hanchor hmem ?_
  rw [LawfulLetters.lower_basic hbasic]
  decide

end Words

/-! ### The verdict -/

/-- The dreams of a session, each a single line without a heading. -/
structure Ordinary (dreams : List Dream) (sessionId : Uuid) : Prop where
  keys : (dreams.map Dream.id).Nodup
  ids : ∀ dream ∈ dreams, dream.id < 2 ^ 31
  session : ∀ dream ∈ dreams, dream.sessionId = sessionId
  lines : ∀ dream ∈ dreams, OneLine dream.text.toList
  headings : ∀ spec ∈ sections, ∀ dream ∈ dreams, ¬ spec.heading <:+: dream.text.toList

/-- What the validator finds nothing wrong with: the headings that come about in the sample fit,
the sample has no forbidden phrase and no placeholder, and no list starts with a placeholder. -/
structure Innocuous [CaseTable] (summary : SessionSummary) : Prop where
  headings : HeadingsFit (sampleText summary.toSummaryContent)
  sample : Harmless (sampleText summary.toSummaryContent)
  lists : ∀ words ∈ [summary.keySymbols, summary.recurringWords],
    ∀ word ∈ words.head?, startsPlaceholder word.toList = false

section Verdict

variable [CharTable] {sessions : List DreamSession} {dreams : List Dream} {sessionId id : Uuid}
  {createdAt : Time} {summary : SessionSummary} {lastActivityAt sessionCreatedAt : Option Time}
  {compiled : CompiledJungianPrompt}

omit [CharTable] in
theorem Ordinary.single (h : Ordinary dreams sessionId) :
    ∀ dream ∈ dreams, Single dream.text.toList := fun dream hdream =>
  ⟨_, h.lines dream hdream, .inl rfl⟩

/-- The sample of single lines is one. -/
theorem oneLine_sampleText (h : ∀ dream ∈ dreams, OneLine dream.text.toList) :
    OneLine (sampleText (summarize dreams)) := by
  rcases sampleText_summarize dreams with hs | ⟨-, hs⟩
  · rw [hs]
    exact Quiet.oneLine (by decide)
  · have hparts : ∀ part ∈ (dreams.take rawTextDreamLimit).map fun dream => dream.text.toList,
        ∀ c ∈ part, isBreak c = false := by
      intro part hp
      obtain ⟨dream, hdream, rfl⟩ := List.mem_map.mp hp
      exact h dream (List.mem_of_mem_take hdream)
    rw [hs]
    exact fun c hc => forall_mem_join (by decide) hparts c (List.mem_of_mem_take hc)

/-- Nothing but the sample can bring a heading. -/
theorem Ordinary.grounded (h : Ordinary dreams sessionId)
    (hcontent : summary.toSummaryContent = summarize (sortDreams dreams))
    (hcompiled : compiled = compileJungianPrompt summary dreams lastActivityAt sessionCreatedAt) :
    Grounded compiled where
  context := by
    rw [hcompiled]
    exact quiet_contextLines summary dreams lastActivityAt sessionCreatedAt
  dreams := by
    intro spec hspec
    have hmem := List.mem_of_mem_drop hspec
    obtain ⟨k, hh⟩ := isHeading_of_mem spec hmem
    exact not_infix_dreamLines hh (stamped_of_compile hcompiled)
      ((forall_text_iff hcompiled (¬ spec.heading <:+: ·)).mpr (h.headings spec hmem))
  summary := tidy_of_single hcontent hcompiled h.single

/-- The structure of such a prompt is validated, and the sample decides. -/
theorem Ordinary.structure (h : Ordinary dreams sessionId)
    (hcontent : summary.toSummaryContent = summarize (sortDreams dreams))
    (hcompiled : compiled = compileJungianPrompt summary dreams lastActivityAt sessionCreatedAt) :
    (∃ errors, validatePromptStructure (renderCompiledPrompt compiled) = .ok errors) ∧
      (Accepted (renderCompiledPrompt compiled) ↔
        HeadingsFit (sampleText summary.toSummaryContent)) := by
  have hg := h.grounded hcontent hcompiled
  have hcount : summary.dreamCount = dreams.length := by
    rw [hcontent]
    exact List.length_insertionSort _ _
  have hlen := lt_pow_maxStrDigits (length_lt h.keys h.ids)
  have hlog := log_valid hcompiled hcount hlen fun dream hdream =>
    ⟨h.single dream hdream, h.headings summarySection (by simp [sections]) dream hdream⟩
  have hsample : compiled.summary.rawTextSample.toList = sampleText summary.toSummaryContent := by
    rw [hcompiled]
    rfl
  constructor
  · obtain ⟨x₄, y₄, x₅, y₅, x₆, y₆, h₄, h₅, h₆⟩ := exists_cuts compiled
    obtain ⟨e, he⟩ := validateSectionOrder_isOk (infix_heading compiled)
    have hfind : sections.find? (fun spec => ¬ spec.heading <:+: renderCompiledPrompt compiled) =
        none := by
      rw [List.find?_eq_none]
      intro spec hspec
      simpa using infix_heading compiled spec hspec
    rw [validatePromptStructure, if_neg (not_not.mpr (starts_promptPrefix compiled)), hfind]
    cases e with
    | some e => exact ⟨[e], by simp only [he, bind, Except.bind]⟩
    | none =>
      have hin := (order_iff hg h₄ h₅ h₆).mp he
      obtain ⟨errors, herrors⟩ : ∃ errors,
          validateSections (renderCompiledPrompt compiled) = .ok errors :=
        ⟨_, sections_eq hcompiled hg (hcount ▸ hlen) hlog h₄ h₅ h₆ hin⟩
      exact ⟨errors, by simp only [he, bind, Except.bind, herrors]⟩
  · rw [← hsample]
    refine accepted_iff_headingsFit hcompiled hg (hcount ▸ hlen) hlog ?_ ?_
    · rw [hsample, hcontent]
      exact oneLine_sampleText fun dream hdream =>
        h.lines dream ((List.mem_insertionSort _).mp hdream)
    · rw [hsample, hcontent]
      exact sampleText_ne_nil _

variable [CaseTable] [LawfulCaseTable] [LawfulLetters]

/-- The validator gives a verdict, and it is the one on the summary. -/
theorem Ordinary.verdict (h : Ordinary dreams sessionId)
    (hsummary : buildSessionSummary sessions dreams sessionId id createdAt = .ok summary)
    (lastActivityAt sessionCreatedAt : Option Time) :
    ∃ verdict, validatePromptSafety
        (buildJungianPrompt summary dreams lastActivityAt sessionCreatedAt) = .ok verdict ∧
      (verdict = true ↔ Innocuous summary) := by
  have hcontent := content_of_build h.session hsummary
  rw [buildJungianPrompt]
  generalize hcompiled : compileJungianPrompt summary dreams lastActivityAt sessionCreatedAt =
    compiled
  have hg := h.grounded hcontent hcompiled.symm
  obtain ⟨⟨errors, herrors⟩, haccepted⟩ := h.structure hcontent hcompiled.symm
  obtain ⟨dreamStart, dreamEnd, hstart, hend, htext⟩ :=
    controlled_eq hg.context (hg.dreams summarySection (by simp [sections]))
  have hkeys : ∀ v ∈ compiled.summary.keySymbols, ∀ c ∈ v.toList, Lowered c := by
    have hsame : compiled.summary.keySymbols = (summarize (sortDreams dreams)).keySymbols := by
      rw [← hcompiled, ← hcontent]
      rfl
    rw [hsame]
    exact lowered_keySymbols _
  have hwords : ∀ v ∈ compiled.summary.recurringWords, ∀ c ∈ v.toList, Lowered c := by
    have hsame : compiled.summary.recurringWords =
        (summarize (sortDreams dreams)).recurringWords := by
      rw [← hcompiled, ← hcontent]
      rfl
    rw [hsame]
    exact lowered_recurringWords _
  have hlexical := (lexicalSafety_controlledLines compiled).trans
    (harmless_controlledLines hcompiled.symm hkeys hwords)
  by_cases herr : errors = []
  · have hfit : HeadingsFit (sampleText summary.toSummaryContent) :=
      haccepted.mp (by rw [Accepted, herrors, herr])
    refine ⟨lexicalSafetyOnControlledText (unlines (controlledLines compiled)), ?_, ?_⟩
    · simp only [validatePromptSafety, herrors, hstart, hend, htext, bind, Except.bind, herr, ne_eq,
        not_true_eq_false, if_false]
    · rw [hlexical]
      subst hcompiled
      exact ⟨fun hl => ⟨hfit, hl.1, hl.2⟩, fun hi => ⟨hi.sample, hi.lists⟩⟩
  · have hno : ¬ HeadingsFit (sampleText summary.toSummaryContent) := fun hfit => by
      have hnil := haccepted.mpr hfit
      rw [Accepted, herrors] at hnil
      exact herr (Except.ok.inj hnil)
    refine ⟨false, by simp only [validatePromptSafety, herrors, bind, Except.bind, ne_eq, herr,
      not_false_eq_true, if_true], ?_⟩
    exact iff_of_false (by decide) fun hi => hno hi.headings

variable {dreams' : List Dream} {id' : Uuid} {createdAt' : Time} {summary' : SessionSummary}

/-- Two prompts get the same verdict if and only if both summaries are innocuous or neither is. -/
theorem validatePromptSafety_same_iff (h : Ordinary dreams sessionId)
    (h' : Ordinary dreams' sessionId)
    (hsummary : buildSessionSummary sessions dreams sessionId id createdAt = .ok summary)
    (hsummary' : buildSessionSummary sessions dreams' sessionId id' createdAt' = .ok summary') :
    validatePromptSafety (buildJungianPrompt summary dreams lastActivityAt sessionCreatedAt) =
        validatePromptSafety (buildJungianPrompt summary' dreams' lastActivityAt sessionCreatedAt) ↔
      (Innocuous summary ↔ Innocuous summary') := by
  obtain ⟨verdict, hverdict, hiff⟩ := h.verdict hsummary lastActivityAt sessionCreatedAt
  obtain ⟨verdict', hverdict', hiff'⟩ := h'.verdict hsummary' lastActivityAt sessionCreatedAt
  rw [hverdict, hverdict', Except.ok.injEq, ← hiff, ← hiff', Bool.eq_iff_iff]

end Verdict

namespace Verdict

local instance : CharTable := Acceptance.asciiTable

local instance : CaseTable := letterCase

def dream (text : String) : Dream := ⟨1, 7, text, 0, 1⟩

/-- The summary of the only dream of a session. -/
def summaryOf (text : String) : SessionSummary :=
  { summarize [dream text] with id := 1, sessionId := 1, userId := 7, createdAt := 0 }

theorem build_summaryOf (text : String) :
    buildSessionSummary [Acceptance.session] [dream text] 1 1 0 = .ok (summaryOf text) := rfl

theorem ordinary_dream {text : String} (h : Quiet text.toList) : Ordinary [dream text] 1 where
  keys := List.nodup_singleton _
  ids := List.forall_mem_singleton.mpr (show 1 < 2 ^ 31 by decide)
  session := List.forall_mem_singleton.mpr rfl
  lines := List.forall_mem_singleton.mpr h.oneLine
  headings := by
    intro spec hspec
    obtain ⟨k, hh⟩ := isHeading_of_mem spec hspec
    exact List.forall_mem_singleton.mpr (hh.not_infix_quiet h)

theorem innocuous_bridge : Innocuous (summaryOf "Иду по мосту") where
  headings := headingsFit_of_no_sign (by decide)
  sample := ⟨by decide, by decide⟩
  lists := by decide

theorem innocuous_river : Innocuous (summaryOf "Вижу реку") where
  headings := headingsFit_of_no_sign (by decide)
  sample := ⟨by decide, by decide⟩
  lists := by decide

/-- Two dreams that nothing is wrong with. -/
theorem same_verdict :
    validatePromptSafety (buildJungianPrompt (summaryOf "Иду по мосту") [dream "Иду по мосту"] none none) =
      validatePromptSafety (buildJungianPrompt (summaryOf "Вижу реку") [dream "Вижу реку"] none none) :=
  have := lawful_letterCase
  have := lawful_letters
  (validatePromptSafety_same_iff (ordinary_dream (by decide)) (ordinary_dream (by decide))
    (build_summaryOf _) (build_summaryOf _)).mpr (iff_of_true innocuous_bridge innocuous_river)

/-- The sample repeats a phrase of the user, and the prompt is refused for it. -/
theorem words_judged : ¬ ∀ (sessions : List DreamSession) (dreams dreams' : List Dream)
    (sessionId id id' : Uuid) (createdAt createdAt' : Time) (summary summary' : SessionSummary)
    (lastActivityAt sessionCreatedAt : Option Time), dreams.length = dreams'.length →
    (∀ dream ∈ dreams ++ dreams', dream.text ≠ "") →
    Ordinary dreams sessionId → Ordinary dreams' sessionId →
    buildSessionSummary sessions dreams sessionId id createdAt = .ok summary →
    buildSessionSummary sessions dreams' sessionId id' createdAt' = .ok summary' →
    validatePromptSafety (buildJungianPrompt summary dreams lastActivityAt sessionCreatedAt) =
      validatePromptSafety (buildJungianPrompt summary' dreams' lastActivityAt sessionCreatedAt) := by
  intro h
  have := lawful_letterCase
  have := lawful_letters
  have hbridge := ordinary_dream (by decide : Quiet "Иду по мосту".toList)
  have hloud := ordinary_dream (by decide : Quiet "Вы точно это видели".toList)
  have hsame := h _ [dream "Иду по мосту"] [dream "Вы точно это видели"] _ _ _ _ _ _ _ none none rfl
    (by decide) hbridge hloud (build_summaryOf _) (build_summaryOf _)
  obtain ⟨verdict, hverdict, hiff⟩ := hbridge.verdict (build_summaryOf _) none none
  obtain ⟨verdict', hverdict', hiff'⟩ := hloud.verdict (build_summaryOf _) none none
  rw [hverdict, hverdict'] at hsame
  have hrefused := hiff'.mp (Except.ok.inj hsame ▸ hiff.mpr innocuous_bridge)
  exact hrefused.sample.phrases "вы точно".toList (by decide) (by decide)

end Verdict

end LiberNovus.Prompts

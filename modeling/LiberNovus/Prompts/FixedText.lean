import LiberNovus.Prompts.Sections

/-! The fixed sections: what is extracted from the asset are its lines between the headings.
They are quiet, and they have the lines that the contract requires. -/

namespace LiberNovus.Prompts

open Text Search

/-! ### The asset -/

def instructionLines : List (List Char) := ((dreamAnalysisAsset.drop 4).take 13).map String.toList

def frameworkLines : List (List Char) := ((dreamAnalysisAsset.drop 20).take 7).map String.toList

def outputFormatLines : List (List Char) := (dreamAnalysisAsset.drop 30).map String.toList

def title : List Char := "# Dream Analysis Prompt v2 RU".toList

theorem asset_eq : dreamAnalysisAsset.map String.toList =
    [title, []] ++ instructionsSection.heading :: ([] :: instructionLines ++
      [] :: frameworkSection.heading :: ([] :: frameworkLines ++
        [] :: outputFormatSection.heading :: [] :: outputFormatLines)) := rfl

set_option maxRecDepth 2000 in
theorem quiet_instructionLines : ∀ l ∈ instructionLines, Quiet l :=
  forall_literals _ [_, _, _, _, _, _, _, _, _, _, _, _, _] rfl (by decide)

set_option maxRecDepth 2000 in
theorem quiet_frameworkLines : ∀ l ∈ frameworkLines, Quiet l :=
  forall_literals _ [_, _, _, _, _, _, _] rfl (by decide)

set_option maxRecDepth 2000 in
theorem quiet_outputFormatLines : ∀ l ∈ outputFormatLines, Quiet l :=
  forall_literals _ [_, _, _, _, _, _, _, _, _, _, _, _, _, _] rfl (by decide)

/-! ### Lines between headings -/

/-- The text begins and ends with something. -/
def Bounded (ls : List (List Char)) : Prop :=
  (∃ l c, ls.head? = some l ∧ l.head? = some c ∧ isSpace c = false) ∧
    ∃ l c, ls.getLast? = some l ∧ l.getLast? = some c ∧ isSpace c = false

theorem bounded_literals {ss : List String} {s s' : String} {c c' : Char} (hs : ss.head? = some s)
    (hs' : ss.getLast? = some s') (hc : s.toList.head? = some c ∧ isSpace c = false)
    (hc' : s'.toList.getLast? = some c' ∧ isSpace c' = false) : Bounded (ss.map String.toList) := by
  refine ⟨⟨s.toList, c, ?_, hc⟩, s'.toList, c', ?_, hc'⟩
  · rw [List.head?_map, hs, Option.map_some]
  · rw [List.getLast?_map, hs', Option.map_some]

theorem bounded_instructionLines : Bounded instructionLines :=
  bounded_literals rfl rfl ⟨of_literal (P := fun l => l.head? = some 'В') rfl rfl, by decide⟩
    ⟨of_literal (P := fun l => l.getLast? = some '.') rfl (by decide), by decide⟩

theorem bounded_frameworkLines : Bounded frameworkLines :=
  bounded_literals rfl rfl ⟨of_literal (P := fun l => l.head? = some 'И') rfl rfl, by decide⟩
    ⟨of_literal (P := fun l => l.getLast? = some 'я') rfl (by decide), by decide⟩

set_option maxRecDepth 2000 in
theorem bounded_outputFormatLines : Bounded outputFormatLines :=
  bounded_literals rfl rfl ⟨of_literal (P := fun l => l.head? = some 'Р') rfl rfl, by decide⟩
    ⟨of_literal (P := fun l => l.getLast? = some '.') rfl (by decide), by decide⟩

section Extraction

variable {ls pre post : List (List Char)} {h h' : List Char} {k k' : Char}

theorem Bounded.ends (hls : Bounded ls) : unlines ls ≠ [] ∧
    (∀ c ∈ (unlines ls).head?, isSpace c = false) ∧
      ∀ c ∈ (unlines ls).getLast?, isSpace c = false := by
  obtain ⟨⟨l, c, hl, hc, hspace⟩, l', c', hl', hc', hspace'⟩ := hls
  have hne : l ≠ [] := by
    rintro rfl
    cases hc
  have hne' : l' ≠ [] := by
    rintro rfl
    cases hc'
  obtain ⟨ls, rfl⟩ := List.head?_eq_some_iff.mp hl
  rw [head?_unlines hne, getLast?_unlines hl' hne', hc, hc']
  refine ⟨?_, ?_, ?_⟩
  · intro hnil
    have hhead := head?_unlines hne ls
    rw [hnil, hc] at hhead
    cases hhead
  · rintro _ ⟨⟩
    exact hspace
  · rintro _ ⟨⟩
    exact hspace'

theorem Bounded.getLast_ne_nil (hls : Bounded ls) : ∀ l ∈ ls.getLast?, l ≠ [] := by
  obtain ⟨-, l', c', hl', hc', -⟩ := hls
  rw [hl']
  rintro _ ⟨⟩ rfl
  cases hc'

theorem isSpace_of_newlines {w : List Char} (hw : ∀ c ∈ w, c = '\n') : ∀ c ∈ w, isSpace c = true := by
  intro c hc
  rw [hw c hc]
  decide

theorem Bounded.strip (hls : Bounded ls) {w w' : List Char} (hw : ∀ c ∈ w, isSpace c = true)
    (hw' : ∀ c ∈ w', isSpace c = true) : strip (w ++ (unlines ls ++ w')) = unlines ls :=
  trim_append hw hw' hls.ends.2.1 hls.ends.2.2 hls.ends.1

theorem Bounded.stripNewlines (hls : Bounded ls) {w w' : List Char} (hw : ∀ c ∈ w, c = '\n')
    (hw' : ∀ c ∈ w', c = '\n') : stripNewlines (w ++ (unlines ls ++ w')) = unlines ls := by
  exact stripNewlines_append hw hw' (fun c hc => ne_newline_of_not_isSpace (hls.ends.2.1 c hc))
    (fun c hc => ne_newline_of_not_isSpace (hls.ends.2.2 c hc)) hls.ends.1

theorem cut_heading (hh : IsHeading k h) (hk : k ≠ '\n') (hpre : ∀ l ∈ pre, ¬ h <:+: l)
    (post : List (List Char)) :
    cut h (unlines (pre ++ h :: post)) = some (unlines (pre ++ [[]]), unlines ([] :: post)) :=
  cut_unlines hh.ne_nil (hh.no_newline hk) hpre (cut_self h)

/-- Lines with an empty one before them. -/
theorem unlines_nil_nil (hls : Bounded ls) :
    unlines ([] :: [] :: ls) = ['\n', '\n'] ++ (unlines ls ++ []) := by
  obtain ⟨l, ls, rfl⟩ : ∃ l ls', ls = l :: ls' := by
    obtain ⟨⟨l, c, hl, -⟩, -⟩ := hls
    exact ⟨l, _, (List.head?_eq_some_iff.mp hl).choose_spec⟩
  simp

theorem Bounded.ne_nil (hls : Bounded ls) : ls ≠ [] := by
  rintro rfl
  obtain ⟨⟨l, c, hl, -⟩, -⟩ := hls
  cases hl

theorem extractMarkdownSection_lines (hh : IsHeading k h) (hk : k ≠ '\n') (hh' : IsHeading k' h')
    (hk' : k' ≠ '\n') (hpre : ∀ l ∈ pre, ¬ h <:+: l) (hq : ∀ l ∈ ls, Quiet l) (hls : Bounded ls) :
    extractMarkdownSection (unlines (pre ++ h :: ([] :: ls ++ [] :: h' :: post))) h (some h') =
      some ls := by
  have hmid : ∀ l ∈ [] :: [] :: ls ++ [[]], ¬ h' <:+: l := by
    simp only [List.cons_append, List.forall_mem_cons, List.forall_mem_append]
    exact ⟨hh'.not_infix_quiet quiet_nil, hh'.not_infix_quiet quiet_nil,
      fun l hl => hh'.not_infix_quiet (hq l hl), hh'.not_infix_quiet quiet_nil, by simp⟩
  have hbody : unlines ([] :: [] :: ls ++ [[]] ++ [[]]) =
      ['\n', '\n'] ++ (unlines ls ++ ['\n', '\n']) := by
    rw [List.append_assoc, unlines_append (by simp) (by simp), unlines_nil_nil hls]
    simp
  have hnext : cut h' (unlines ([] :: ([] :: ls ++ [] :: h' :: post))) =
      some (unlines ([] :: [] :: ls ++ [[]] ++ [[]]), unlines ([] :: post)) := by
    have hcut := cut_heading hh' hk' hmid post
    rwa [List.append_assoc] at hcut
  have hstrip : strip (unlines ([] :: [] :: ls ++ [[]] ++ [[]])) = unlines ls := by
    rw [hbody]
    exact hls.strip (isSpace_of_newlines (by simp)) (isSpace_of_newlines (by simp))
  simp only [extractMarkdownSection, cut_heading hh hk hpre, Option.bind_eq_bind, Option.bind_some,
    hnext, hstrip]
  rw [splitlines_unlines (fun l hl => (hq l hl).oneLine) hls.getLast_ne_nil]

/-- The last section reaches to the end. -/
theorem extractMarkdownSection_last (hh : IsHeading k h) (hk : k ≠ '\n')
    (hpre : ∀ l ∈ pre, ¬ h <:+: l) (hq : ∀ l ∈ ls, Quiet l) (hls : Bounded ls) :
    extractMarkdownSection (unlines (pre ++ h :: [] :: ls)) h none = some ls := by
  have hstrip : strip (unlines ([] :: [] :: ls)) = unlines ls := by
    rw [unlines_nil_nil hls]
    exact hls.strip (isSpace_of_newlines (by simp)) (by simp)
  simp only [extractMarkdownSection, cut_heading hh hk hpre, Option.bind_eq_bind, Option.bind_some,
    hstrip]
  rw [splitlines_unlines (fun l hl => (hq l hl).oneLine) hls.getLast_ne_nil]

end Extraction

/-! ### The fixed sections -/

/-- One sign does not make a heading. -/
theorem IsHeading.not_infix_title {h : List Char} {k : Char} (hh : IsHeading k h) :
    ¬ h <:+: title := by
  obtain ⟨r, rfl, -⟩ := hh
  have hcount : title.count '#' = 1 := of_literal (P := fun l => l.count '#' = 1) rfl (by decide)
  intro hin
  have hle := hin.sublist.count_le '#'
  rw [hcount] at hle
  simp at hle

set_option maxRecDepth 2000 in
theorem loadPromptAssetText_eq :
    loadPromptAssetText = unlines (dreamAnalysisAsset.map String.toList) := by
  have hbounded : Bounded (dreamAnalysisAsset.map String.toList) :=
    bounded_literals rfl rfl ⟨of_literal (P := fun l => l.head? = some '#') rfl rfl, by decide⟩
      ⟨of_literal (P := fun l => l.getLast? = some '.') rfl (by decide), by decide⟩
  have htext : join ['\n'] (dreamAnalysisAsset.map String.toList ++ [[]]) =
      [] ++ (unlines (dreamAnalysisAsset.map String.toList) ++ ['\n']) := by
    rw [List.nil_append]
    exact unlines_append hbounded.ne_nil (by simp)
  rw [loadPromptAssetText, htext]
  exact hbounded.strip (by simp) (isSpace_of_newlines (by simp))

theorem not_infix_of_quiet {ls : List (List Char)} (hq : ∀ l ∈ ls, Quiet l) {h : List Char}
    {k : Char} (hh : IsHeading k h) : ∀ l ∈ ls, ¬ h <:+: l := fun l hl =>
  hh.not_infix_quiet (hq l hl)

theorem fixedAnalysisInstructions_eq : fixedAnalysisInstructions = instructionLines := by
  have hpre : ∀ l ∈ [title, []], ¬ instructionsSection.heading <:+: l := by
    simp only [List.forall_mem_cons]
    exact ⟨instructions_isHeading.not_infix_title,
      instructions_isHeading.not_infix_quiet quiet_nil, by simp⟩
  rw [fixedAnalysisInstructions, loadPromptAssetText_eq, asset_eq,
    extractMarkdownSection_lines instructions_isHeading (by decide) framework_isHeading (by decide)
      hpre quiet_instructionLines bounded_instructionLines]
  rfl

theorem fixedAnalyticalFramework_eq : fixedAnalyticalFramework = frameworkLines := by
  have hpre : ∀ l ∈ [title, []] ++ instructionsSection.heading :: ([] :: instructionLines ++ [[]]),
      ¬ frameworkSection.heading <:+: l := by
    simp only [List.cons_append, List.nil_append, List.forall_mem_cons, List.forall_mem_append]
    exact ⟨framework_isHeading.not_infix_title, framework_isHeading.not_infix_quiet quiet_nil,
      framework_isHeading.not_infix instructions_isHeading (by decide) (by decide),
      framework_isHeading.not_infix_quiet quiet_nil,
      not_infix_of_quiet quiet_instructionLines framework_isHeading,
      framework_isHeading.not_infix_quiet quiet_nil, by simp⟩
  have hasset : dreamAnalysisAsset.map String.toList =
      ([title, []] ++ instructionsSection.heading :: ([] :: instructionLines ++ [[]])) ++
        frameworkSection.heading :: ([] :: frameworkLines ++
          [] :: outputFormatSection.heading :: [] :: outputFormatLines) := by
    rw [asset_eq]
    simp only [List.cons_append, List.nil_append, List.append_assoc]
  rw [fixedAnalyticalFramework, loadPromptAssetText_eq, hasset,
    extractMarkdownSection_lines framework_isHeading (by decide) outputFormat_isHeading (by decide)
      hpre quiet_frameworkLines bounded_frameworkLines]
  rfl

theorem fixedOutputFormat_eq : fixedOutputFormat = outputFormatLines := by
  have hpre : ∀ l ∈ [title, []] ++ instructionsSection.heading :: ([] :: instructionLines ++
      [] :: frameworkSection.heading :: ([] :: frameworkLines ++ [[]])),
      ¬ outputFormatSection.heading <:+: l := by
    simp only [List.cons_append, List.nil_append, List.forall_mem_cons, List.forall_mem_append]
    exact ⟨outputFormat_isHeading.not_infix_title, outputFormat_isHeading.not_infix_quiet quiet_nil,
      outputFormat_isHeading.not_infix instructions_isHeading (by decide) (by decide),
      outputFormat_isHeading.not_infix_quiet quiet_nil,
      not_infix_of_quiet quiet_instructionLines outputFormat_isHeading,
      outputFormat_isHeading.not_infix_quiet quiet_nil,
      outputFormat_isHeading.not_infix framework_isHeading (by decide) (by decide),
      outputFormat_isHeading.not_infix_quiet quiet_nil,
      not_infix_of_quiet quiet_frameworkLines outputFormat_isHeading,
      outputFormat_isHeading.not_infix_quiet quiet_nil, by simp⟩
  have hasset : dreamAnalysisAsset.map String.toList =
      ([title, []] ++ instructionsSection.heading :: ([] :: instructionLines ++
        [] :: frameworkSection.heading :: ([] :: frameworkLines ++ [[]]))) ++
          outputFormatSection.heading :: [] :: outputFormatLines := by
    rw [asset_eq]
    simp only [List.cons_append, List.nil_append, List.append_assoc]
  rw [fixedOutputFormat, loadPromptAssetText_eq, hasset,
    extractMarkdownSection_last outputFormat_isHeading (by decide) hpre quiet_outputFormatLines
      bounded_outputFormatLines]
  rfl

/-! ### The required lines -/

theorem required_instructions :
    ∀ line ∈ requiredInstructionLines, line <:+: unlines instructionLines := by
  simp only [requiredInstructionLines, List.forall_mem_cons]
  exact ⟨infix_of_mem_unlines (List.mem_map_of_mem (List.mem_of_getElem? (i := 0) rfl)),
    infix_of_mem_unlines (List.mem_map_of_mem (List.mem_of_getElem? (i := 2) rfl)),
    infix_of_mem_unlines (List.mem_map_of_mem (List.mem_of_getElem? (i := 5) rfl)), by simp⟩

theorem required_framework :
    ∀ line ∈ requiredFrameworkItems, line <:+: unlines frameworkLines := by
  intro line hline
  refine infix_of_mem_unlines ?_
  have hitems : requiredFrameworkItems = frameworkLines.drop 1 := rfl
  rw [hitems] at hline
  exact List.mem_of_mem_drop hline

theorem required_outputFormat :
    ∀ line ∈ requiredOutputFormatLines, line <:+: unlines outputFormatLines := by
  have hjson : "Верните только один JSON-объект.".toList <+:
      "Верните только один JSON-объект. Без markdown и без текста вне JSON.".toList :=
    of_literal (P := fun l => _ <+: l) rfl (of_literal (P := (· <+: _)) rfl (by decide))
  simp only [requiredOutputFormatLines, List.forall_mem_cons]
  exact ⟨hjson.isInfix.trans
      (infix_of_mem_unlines (List.mem_map_of_mem (List.mem_of_getElem? (i := 1) rfl))),
    infix_of_mem_unlines (List.mem_map_of_mem (List.mem_of_getElem? (i := 3) rfl)), by simp⟩

end LiberNovus.Prompts

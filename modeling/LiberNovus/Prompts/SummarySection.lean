import LiberNovus.Prompts.Layout

/-! The section of the summary. Its lists are quiet. The sample of single lines is one field line,
unless it starts with a carriage return: what comes behind a boundary starts with the space
between two texts. -/

namespace LiberNovus.Prompts

open Text Search Results Session

/-! ### Spaced text -/

/-- The boundaries are carriage returns, and a space or the end is behind each. -/
def Spaced : List Char → Prop
  | [] => True
  | c :: t => (isBreak c = true → c = '\r' ∧ ∀ d ∈ t.head?, d = ' ') ∧ Spaced t

section Spaced

variable {t x : List Char}

theorem spaced_oneLine_append (hx : OneLine x) : Spaced (x ++ t) ↔ Spaced t := by
  induction x with
  | nil => rfl
  | cons c x ih =>
    have hc := hx c List.mem_cons_self
    rw [List.cons_append, Spaced, ih fun d hd => hx d (List.mem_cons_of_mem _ hd)]
    simp [hc]

theorem spaced_of_oneLine (hx : OneLine x) : Spaced x := by
  have h := spaced_oneLine_append (t := []) hx
  rw [List.append_nil] at h
  exact h.mpr trivial

theorem Spaced.take (h : Spaced t) (n : ℕ) : Spaced (t.take n) := by
  induction t generalizing n with
  | nil => simpa using h
  | cons c t ih =>
    cases n with
    | zero => trivial
    | succ n =>
      refine ⟨fun hc => ⟨(h.1 hc).1, fun d hd => (h.1 hc).2 d ?_⟩, ih h.2 n⟩
      cases t with
      | nil => simp at hd
      | cons e t =>
        cases n with
        | zero => cases hd
        | succ n => exact hd

theorem Spaced.no_newline (h : Spaced t) : '\n' ∉ t := by
  induction t with
  | nil => simp
  | cons c t ih =>
    rw [List.mem_cons, not_or]
    refine ⟨?_, ih h.2⟩
    rintro rfl
    exact absurd (h.1 rfl).1 (by decide)

/-- Single lines with spaces between them. -/
theorem spaced_join {texts : List (List Char)} (h : ∀ t ∈ texts, Single t) :
    Spaced (join [' '] texts) := by
  induction texts with
  | nil => trivial
  | cons t texts ih =>
    have hrest := ih fun t ht => h t (List.mem_cons_of_mem _ ht)
    obtain ⟨x, hx, ht⟩ := h t List.mem_cons_self
    cases texts with
    | nil =>
      rw [join, List.intercalate_singleton]
      rcases ht with rfl | rfl
      · exact spaced_of_oneLine hx
      · exact (spaced_oneLine_append hx).mpr ⟨fun _ => ⟨rfl, by simp⟩, trivial⟩
    | cons t' texts =>
      have hspace : Spaced (' ' :: join [' '] (t' :: texts)) := ⟨fun hc => absurd hc (by decide), hrest⟩
      have hjoin : join [' '] (t :: t' :: texts) = t ++ ' ' :: join [' '] (t' :: texts) := by
        rw [join, List.intercalate_cons_cons, List.append_assoc]
        rfl
      rw [hjoin]
      rcases ht with rfl | rfl
      · exact (spaced_oneLine_append hx).mpr hspace
      · rw [List.append_assoc]
        exact (spaced_oneLine_append hx).mpr ⟨fun _ => ⟨rfl, by simp⟩, hspace⟩

/-- The first line of spaced text, and what is left. -/
theorem Spaced.split (h : Spaced t) :
    OneLine t ∨ ∃ x r, t = x ++ '\r' :: r ∧ OneLine x ∧ Spaced r ∧ ∀ d ∈ r.head?, d = ' ' := by
  by_cases ht : OneLine t
  · exact .inl ht
  · obtain ⟨x, c, r, rfl, hx, hc⟩ := exists_break ht
    rw [spaced_oneLine_append hx] at h
    obtain ⟨rfl, hr⟩ := h.1 hc
    exact .inr ⟨x, r, rfl, hx, h.2, hr⟩

theorem afterBreak_space {r : List Char} (hr : ∀ d ∈ r.head?, d = ' ') : afterBreak '\r' r = r := by
  rw [afterBreak, if_neg]
  rintro ⟨-, hhead⟩
  exact absurd (hr '\n' hhead) (by decide)

/-- Behind the first boundary every line starts with a space. -/
theorem Spaced.lines (h : Spaced t) (hhead : ∀ d ∈ t.head?, d = ' ') :
    ∀ l ∈ splitlines t, l.head? = some ' ' := by
  induction hn : t.length using Nat.strong_induction_on generalizing t with
  | _ n ih =>
    rcases h.split with hone | ⟨x, r, rfl, hx, hr, hrhead⟩
    · cases t with
      | nil => simp [splitlines]
      | cons c t =>
        rw [splitlines_oneLine hone (List.cons_ne_nil _ _)]
        rw [hhead c rfl]
        simp
    · have hxhead : x.head? = some ' ' := by
        cases x with
        | nil => exact absurd (hhead '\r' rfl) (by decide)
        | cons c x => rw [hhead c rfl]; rfl
      rw [splitlines_append hx rfl, afterBreak_space hrhead]
      refine List.forall_mem_cons.mpr ⟨hxhead, ih r.length ?_ hr hrhead rfl⟩
      rw [← hn]
      simp only [List.length_append, List.length_cons]
      omega

end Spaced

/-! ### The field lines -/

section Fields

variable {summary : SessionSummaryBlock}

theorem fieldLine_space {l : List Char} (h : l.head? = some ' ') : fieldLine l = none := by
  obtain ⟨l, rfl⟩ := List.head?_eq_some_iff.mp h
  have htake : (' ' :: l).takeWhile isNameChar = [] := List.takeWhile_cons_of_neg (by decide)
  simp only [fieldLine, htake, ne_eq, not_true_eq_false, false_and, if_false]

theorem fieldLine_empty (name : String) (hname : name.toList.all isNameChar = true) :
    fieldLine (name.toList ++ [':', ' ']) = none := by
  have hchars : ∀ c ∈ name.toList, isNameChar c = true := List.all_eq_true.mp hname
  have hcolon : isNameChar ':' = false := by decide
  have hdrop : (name.toList ++ [':', ' ']).dropWhile isNameChar = [':', ' '] := by
    rw [List.dropWhile_append_of_pos hchars]
    simp [hcolon]
  simp only [fieldLine, hdrop]
  simp

/-- Spaced text is at most one field: its first line, if there is something in it. -/
theorem fieldLines_spaced (name : String) (hname : name.toList.all isNameChar = true)
    (hne : name.toList ≠ []) (hquiet : Quiet name.toList) {t : List Char} (ht : Spaced t) :
    (fieldLines (name.toList ++ ':' :: ' ' :: t)).map Prod.fst =
      if t = [] ∨ t.head? = some '\r' then [] else [name.toList] := by
  have hone : ∀ {x}, OneLine x → OneLine (name.toList ++ ':' :: ' ' :: x) := fun hx =>
    hquiet.oneLine.append ((Quiet.oneLine (by decide : Quiet [':', ' '])).append hx)
  rcases ht.split with hx | ⟨x, r, rfl, hx, hr, hrhead⟩
  · rw [fieldLines, splitlines_oneLine (hone hx) (by simp)]
    by_cases hnil : t = []
    · subst hnil
      rw [List.filterMap_cons, fieldLine_empty name hname, if_pos (.inl rfl)]
      rfl
    · have hhead : ¬ t.head? = some '\r' := fun hhead =>
        absurd (hx _ (List.mem_of_head? hhead)) (by decide)
      rw [List.filterMap_cons, fieldLine_append name t hname hne hnil, if_neg (by tauto)]
      rfl
  · have hlines : splitlines (name.toList ++ ':' :: ' ' :: (x ++ '\r' :: r)) =
        (name.toList ++ ':' :: ' ' :: x) :: splitlines r := by
      have hsplit : name.toList ++ ':' :: ' ' :: (x ++ '\r' :: r) =
          (name.toList ++ ':' :: ' ' :: x) ++ '\r' :: r := by simp
      rw [hsplit, splitlines_append (hone hx) rfl, afterBreak_space hrhead]
    have hrest : (splitlines r).filterMap fieldLine = [] := by
      rw [List.filterMap_eq_nil_iff]
      exact fun l hl => fieldLine_space (hr.lines hrhead l hl)
    rw [fieldLines, hlines, List.filterMap_cons, hrest]
    cases x with
    | nil => rw [fieldLine_empty name hname, if_pos (.inr rfl)]; rfl
    | cons c x =>
      have hhead : ¬ (c :: x ++ '\r' :: r).head? = some '\r' := by
        rintro ⟨⟩
        exact absurd (hx _ List.mem_cons_self) (by decide)
      rw [fieldLine_append name (c :: x) hname hne (List.cons_ne_nil _ _),
        if_neg (by simpa using hhead)]
      rfl

/-- What `build_session_summary` puts into the section. -/
structure Tidy (summary : SessionSummaryBlock) : Prop where
  keySymbols : ∀ v ∈ summary.keySymbols, Quiet v.toList
  recurringWords : ∀ v ∈ summary.recurringWords, Quiet v.toList
  rawTextSample : Spaced summary.rawTextSample.toList

theorem formatList_ne_nil (values : List String) : formatList values ≠ [] := by
  rw [formatList]
  split
  · decide
  · simp

theorem Tidy.fieldLines (h : Tidy summary) :
    (fieldLines (unlines (summaryLines summary))).map Prod.fst =
      ["key_symbols".toList, "recurring_words".toList] ++
        if summary.rawTextSample.toList = [] ∨ summary.rawTextSample.toList.head? = some '\r' then []
        else ["raw_text_sample".toList] := by
  have hkey : Quiet ("key_symbols: ".toList ++ formatList summary.keySymbols) :=
    quiet_append.mpr ⟨by decide, quiet_formatList h.keySymbols⟩
  have hwords : Quiet ("recurring_words: ".toList ++ formatList summary.recurringWords) :=
    quiet_append.mpr ⟨by decide, quiet_formatList h.recurringWords⟩
  have h₁ : fieldLine ("key_symbols: ".toList ++ formatList summary.keySymbols) =
      some ("key_symbols".toList, formatList summary.keySymbols) :=
    fieldLine_label (by simp) (by decide) (by decide) (formatList_ne_nil _)
  have h₂ : fieldLine ("recurring_words: ".toList ++ formatList summary.recurringWords) =
      some ("recurring_words".toList, formatList summary.recurringWords) :=
    fieldLine_label (by simp) (by decide) (by decide) (formatList_ne_nil _)
  have h₃ := fieldLines_spaced "raw_text_sample" (by decide) (by decide) (by decide) h.rawTextSample
  rw [summaryLines, unlines_cons_cons, unlines_cons_cons, unlines_singleton, Prompts.fieldLines,
    splitlines_append hkey.oneLine rfl, afterBreak, if_neg (by simp),
    splitlines_append hwords.oneLine rfl, afterBreak, if_neg (by simp), List.filterMap_cons, h₁,
    List.filterMap_cons, h₂, ← h₃]
  rfl

/-- The lines of the section, without the line feeds around them. -/
theorem Tidy.strip_append (h : Tidy summary) {w : List Char} (hw : ∀ c ∈ w, c = '\n') :
    stripNewlines ('\n' :: (unlines (summaryLines summary) ++ w)) = unlines (summaryLines summary) := by
  have hkey : '\n' ∉ "key_symbols: ".toList ++ formatList summary.keySymbols := fun hc =>
    absurd (quiet_append.mpr ⟨(by decide : Quiet "key_symbols: ".toList),
      quiet_formatList h.keySymbols⟩ _ hc).1 (by decide)
  have hsample : '\n' ∉ "raw_text_sample: ".toList ++ summary.rawTextSample.toList := by
    rw [List.mem_append, not_or]
    exact ⟨by decide, h.rawTextSample.no_newline⟩
  rw [stripNewlines_lines rfl (by simp) hkey rfl (by simp) hsample hw]

/-- The body of the section. -/
theorem Tidy.stripNewlines (h : Tidy summary) :
    stripNewlines (unlines ([] :: (summaryLines summary ++ [[]]) ++ [[]])) =
      unlines (summaryLines summary) := by
  have hlines : unlines ([] :: (summaryLines summary ++ [[]]) ++ [[]]) =
      '\n' :: (unlines (summaryLines summary) ++ ['\n', '\n']) := by
    have hne : summaryLines summary ≠ [] := List.cons_ne_nil _ _
    rw [List.cons_append, List.append_assoc, unlines_cons (by simp), unlines_append hne (by simp)]
    simp
  rw [hlines, h.strip_append (by simp)]

/-- The section passes its check unless the sample starts with a boundary. -/
theorem Tidy.valid_iff (h : Tidy summary) :
    validateSummarySection (unlines (summaryLines summary)) summarySection.fields = none ↔
      summary.rawTextSample.toList ≠ [] ∧ summary.rawTextSample.toList.head? ≠ some '\r' := by
  have hnames := h.fieldLines
  constructor
  · intro hvalid
    by_contra hbad
    rw [if_pos (by tauto)] at hnames
    have hfind : summarySection.fields.find? (fun spec => spec.required && spec.name ∉
        ["key_symbols".toList, "recurring_words".toList] ++ []) =
          some (field "raw_text_sample") := by decide
    rw [validateSummarySection, validateFields] at hvalid
    simp only [hnames, hfind] at hvalid
    cases hvalid
  · intro hgood
    rw [if_neg (by tauto)] at hnames
    exact validateFields_eq_none hnames

end Fields

/-! ### Acceptance -/

section Acceptance

variable {sessionSummary : SessionSummary} {dreams : List Dream}
  {lastActivityAt sessionCreatedAt : Option Time} {compiled : CompiledJungianPrompt}

theorem isHeading_of_mem : ∀ spec ∈ sections, ∃ k, IsHeading k spec.heading := by
  simp only [sections, List.forall_mem_cons]
  exact ⟨⟨_, context_isHeading⟩, ⟨_, dream_isHeading⟩, ⟨_, summary_isHeading⟩,
    ⟨_, instructions_isHeading⟩, ⟨_, framework_isHeading⟩, ⟨_, outputFormat_isHeading⟩, by simp⟩

/-- A heading in the log is one in a text. -/
theorem not_infix_dreamLines {entries : List DreamEntry} {h : List Char} {k : Char}
    (hh : IsHeading k h) (hs : ∀ entry ∈ entries, Stamped entry)
    (htexts : ∀ entry ∈ entries, ¬ h <:+: entry.text.toList) :
    ∀ l ∈ dreamLines entries, ¬ h <:+: l := by
  rw [dreamLines]
  split
  · simp only [List.forall_mem_cons]
    exact ⟨hh.not_infix_quiet (of_literal rfl (by decide)), by simp⟩
  · intro l hl
    obtain ⟨entry, hentry, hl⟩ := List.mem_flatMap.mp hl
    have hlines : ∀ l ∈ entryLines entry, ¬ h <:+: l := by
      simp only [entryLines, blockLines, List.forall_mem_append, List.forall_mem_cons]
      refine ⟨⟨hh.not_infix_quiet (quiet_marker entry), ?_,
        hh.not_infix_quiet (hs entry hentry).quiet, by simp⟩, hh.not_infix_quiet quiet_nil, by simp⟩
      rw [hh.infix_append_iff (by decide)]
      exact htexts entry hentry
    exact hlines l hl

/-- A heading in the summary is one in the sample. -/
theorem Tidy.not_infix {summary : SessionSummaryBlock} (ht : Tidy summary) {h : List Char} {k : Char}
    (hh : IsHeading k h) (hsample : ¬ h <:+: summary.rawTextSample.toList) :
    ∀ l ∈ summaryLines summary, ¬ h <:+: l := by
  simp only [summaryLines, List.forall_mem_cons]
  refine ⟨hh.not_infix_quiet (quiet_append.mpr ⟨by decide, quiet_formatList ht.keySymbols⟩),
    hh.not_infix_quiet (quiet_append.mpr ⟨by decide, quiet_formatList ht.recurringWords⟩), ?_, by simp⟩
  rw [hh.infix_append_iff (by decide)]
  exact hsample

theorem clean_of_texts (hcompiled : compiled =
    compileJungianPrompt sessionSummary dreams lastActivityAt sessionCreatedAt)
    (htexts : ∀ spec ∈ sections.drop 2, ∀ dream ∈ dreams, ¬ spec.heading <:+: dream.text.toList)
    (htidy : Tidy compiled.summary)
    (hsample : ∀ spec ∈ sections.drop 3, ¬ spec.heading <:+: compiled.summary.rawTextSample.toList) :
    Clean compiled where
  context := by
    rw [hcompiled]
    exact quiet_contextLines sessionSummary dreams lastActivityAt sessionCreatedAt
  dreams := by
    intro spec hspec
    obtain ⟨k, hh⟩ := isHeading_of_mem spec (List.mem_of_mem_drop hspec)
    exact not_infix_dreamLines hh (stamped_of_compile hcompiled)
      ((forall_text_iff hcompiled (¬ spec.heading <:+: ·)).mpr (htexts spec hspec))
  summary := by
    intro spec hspec
    obtain ⟨k, hh⟩ := isHeading_of_mem spec (List.mem_of_mem_drop hspec)
    exact htidy.not_infix hh (hsample spec hspec)

/-- The log without the empty lines around it. -/
theorem stripNewlines_log {entries : List DreamEntry} (h : entries ≠ []) :
    stripNewlines (unlines ([] :: dreamLines entries ++ [[]])) =
      (logText entries).rdropWhile (· == '\n') := by
  obtain ⟨r, hr⟩ := logText_ne_nil h []
  have hlines : unlines ([] :: dreamLines entries ++ [[]]) = '\n' :: (logText entries ++ []) := by
    rw [List.cons_append, unlines_cons (by simp), dreamLines, if_neg h,
      unlines_log (List.cons_ne_nil _ _), unlines_singleton]
    rfl
  rw [hlines, stripNewlines, List.dropWhile_cons_of_pos (by simp), hr,
    List.dropWhile_cons_of_neg (by decide), ← hr, List.append_nil]

/-- A prompt without further headings is accepted when its log passes the check and the sample
does not start with a boundary. -/
theorem accepted_of_tidy (hcompiled : compiled =
    compileJungianPrompt sessionSummary dreams lastActivityAt sessionCreatedAt)
    (htexts : ∀ spec ∈ sections.drop 2, ∀ dream ∈ dreams, ¬ spec.heading <:+: dream.text.toList)
    (htidy : Tidy compiled.summary)
    (hsample : ∀ spec ∈ sections.drop 3, ¬ spec.heading <:+: compiled.summary.rawTextSample.toList)
    (hne : compiled.summary.rawTextSample.toList ≠ [])
    (hstart : compiled.summary.rawTextSample.toList.head? ≠ some '\r')
    (hcount : sessionSummary.dreamCount < 10 ^ maxStrDigits)
    (hdreams : validateDreamSection (stripNewlines (unlines ([] :: dreamLines compiled.dreams ++ [[]])))
      sessionSummary.dreamCount = .ok none) :
    Accepted (buildJungianPrompt sessionSummary dreams lastActivityAt sessionCreatedAt) := by
  have hc := clean_of_texts hcompiled htexts htidy hsample
  have hsummary := htidy.valid_iff.mpr ⟨hne, hstart⟩
  rw [← htidy.stripNewlines] at hsummary
  rw [buildJungianPrompt, ← hcompiled]
  exact hc.accepted hcompiled hcount hdreams hsummary

end Acceptance

end LiberNovus.Prompts

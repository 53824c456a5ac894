import LiberNovus.Prompts.Rendering
import LiberNovus.Prompts.Validation

/-! The sections of a built prompt. A heading is found in the first line that has it, and only
the texts of dreams and the sample can have one besides the heading itself. -/

namespace LiberNovus.Prompts

open Text Search Results Session

/-! ### Headings -/

/-- A heading of the contract, with its number. -/
def IsHeading (k : Char) (h : List Char) : Prop :=
  ∃ r, h = '#' :: '#' :: ' ' :: k :: r ∧ '#' ∉ r ∧ '\n' ∉ r

theorem context_isHeading : IsHeading '1' contextSection.heading :=
  of_literal rfl ⟨_, rfl, by decide, by decide⟩

theorem dream_isHeading : IsHeading '2' dreamSection.heading :=
  of_literal rfl ⟨_, rfl, by decide, by decide⟩

theorem summary_isHeading : IsHeading '3' summarySection.heading :=
  of_literal rfl ⟨_, rfl, by decide, by decide⟩

theorem instructions_isHeading : IsHeading '4' instructionsSection.heading :=
  of_literal rfl ⟨_, rfl, by decide, by decide⟩

theorem framework_isHeading : IsHeading '5' frameworkSection.heading :=
  of_literal rfl ⟨_, rfl, by decide, by decide⟩

theorem outputFormat_isHeading : IsHeading '6' outputFormatSection.heading :=
  of_literal rfl ⟨_, rfl, by decide, by decide⟩

section Headings

variable {k k' : Char} {h h' : List Char}

theorem IsHeading.ne_nil (hh : IsHeading k h) : h ≠ [] := by
  obtain ⟨r, rfl, -⟩ := hh
  simp

theorem IsHeading.no_newline (hh : IsHeading k h) (hk : k ≠ '\n') : '\n' ∉ h := by
  obtain ⟨r, rfl, -, hr⟩ := hh
  simp [hr, hk.symm]

/-- A heading is not in quiet text. -/
theorem IsHeading.not_infix_quiet (hh : IsHeading k h) {t : List Char} (ht : Quiet t) :
    ¬ h <:+: t := by
  obtain ⟨r, rfl, -⟩ := hh
  intro hin
  exact (ht '#' (hin.subset List.mem_cons_self)).2 rfl

/-- A heading is not in another one. -/
theorem IsHeading.not_infix (hh : IsHeading k h) (hh' : IsHeading k' h') (hk : k ≠ k')
    (hk' : k' ≠ '#') : ¬ h <:+: h' := by
  obtain ⟨r, rfl, -⟩ := hh
  obtain ⟨r', rfl, hr', -⟩ := hh'
  rintro ⟨a, b, hab⟩
  rcases a with _ | ⟨c, _ | ⟨d, a⟩⟩
  · have := congrArg (·[3]?) hab
    simp at this
    exact hk this
  · have := congrArg (·[2]?) hab
    simp at this
  · have hmem : '#' ∈ ' ' :: k' :: r' := by
      have h₂ := (List.cons_eq_cons.mp (List.cons_eq_cons.mp hab).2).2
      rw [← show _ = ' ' :: k' :: r' from h₂]
      simp
    simp only [List.mem_cons] at hmem
    rcases hmem with h | h | h
    · exact absurd h (by decide)
    · exact hk' h.symm
    · exact hr' h

/-- Text in front without the sign of a heading is passed over. -/
theorem IsHeading.cut_append (hh : IsHeading k h) {q : List Char} (hq : '#' ∉ q) (t : List Char) :
    cut h (q ++ t) = (cut h t).map fun (before, after) => (q ++ before, after) := by
  induction q with
  | nil => simp
  | cons c q ih =>
    rw [List.mem_cons, not_or] at hq
    have hp : ¬ h <+: c :: (q ++ t) := by
      obtain ⟨r, rfl, -⟩ := hh
      exact fun hp => hq.1 (List.cons_prefix_cons.mp hp).1
    rw [List.cons_append, cut_cons hp, ih hq.2, Option.map_map]
    rfl

theorem IsHeading.infix_append_iff (hh : IsHeading k h) {q t : List Char} (hq : '#' ∉ q) :
    h <:+: q ++ t ↔ h <:+: t := by
  rw [← cut_isSome_iff, ← cut_isSome_iff, hh.cut_append hq, Option.isSome_map]

/-- Another heading is passed over, with text in front of it that does not have the one that is
looked for. -/
theorem IsHeading.cut_heading_append (hh : IsHeading k h) (hh' : IsHeading k' h') (hk : k ≠ k')
    (hsign : k ≠ '#' ∧ k' ≠ '#') {q : List Char} (hq : ¬ h <:+: q) (t : List Char) :
    cut h (q ++ (h' ++ t)) = (cut h t).map fun (before, after) => (q ++ (h' ++ before), after) := by
  obtain ⟨r', rfl, hr', -⟩ := hh'
  induction q with
  | nil =>
    have hrest : '#' ∉ ' ' :: k' :: r' := by
      simp only [List.mem_cons, not_or]
      exact ⟨by decide, hsign.2.symm, hr'⟩
    have hfirst : ¬ h <+: '#' :: '#' :: (' ' :: k' :: r' ++ t) := by
      obtain ⟨r, rfl, -⟩ := hh
      intro hp
      simp only [List.cons_append, List.cons_prefix_cons] at hp
      exact hk hp.2.2.2.1
    have hsecond : ¬ h <+: '#' :: (' ' :: k' :: r' ++ t) := by
      obtain ⟨r, rfl, -⟩ := hh
      intro hp
      simp only [List.cons_append, List.cons_prefix_cons] at hp
      exact absurd hp.2.1 (by decide)
    change cut h ('#' :: '#' :: (' ' :: k' :: r' ++ t)) = _
    rw [cut_cons hfirst, cut_cons hsecond, hh.cut_append hrest, Option.map_map, Option.map_map]
    rfl
  | cons c q ih =>
    rw [List.infix_cons_iff, not_or] at hq
    have hp : ¬ h <+: c :: (q ++ ('#' :: '#' :: ' ' :: k' :: r' ++ t)) := by
      intro hp
      rcases List.prefix_or_prefix_of_prefix hp (List.prefix_append (c :: q) _) with hin | ⟨v, hv⟩
      · exact hq.1 hin
      · -- what is left of the heading would start with the sign of the other one
        rw [← List.cons_append, ← hv, List.prefix_append_right_inj] at hp
        obtain ⟨r, rfl, hr, -⟩ := hh
        cases v with
        | nil => exact hq.1 ⟨[], by rw [← hv, List.append_nil, List.append_nil]⟩
        | cons d v =>
          obtain ⟨rfl, hv'⟩ := List.cons_prefix_cons.mp hp
          obtain ⟨-, htail⟩ := List.cons_eq_cons.mp hv
          cases q with
          | nil =>
            obtain ⟨-, rfl⟩ := List.cons_eq_cons.mp htail
            exact absurd (List.cons_prefix_cons.mp hv').1 (by decide)
          | cons e q =>
            have hmem : '#' ∈ ' ' :: k :: r := by
              rw [← (List.cons_eq_cons.mp htail).2]
              simp
            simp only [List.mem_cons] at hmem
            rcases hmem with hc | hc | hc
            · exact absurd hc (by decide)
            · exact hsign.1 hc.symm
            · exact hr hc
    rw [List.cons_append, cut_cons hp, ih hq.2, Option.map_map]
    rfl

theorem IsHeading.infix_heading_append_iff (hh : IsHeading k h) (hh' : IsHeading k' h') (hk : k ≠ k')
    (hsign : k ≠ '#' ∧ k' ≠ '#') {q t : List Char} :
    h <:+: q ++ (h' ++ t) ↔ h <:+: q ∨ h <:+: t := by
  by_cases hq : h <:+: q
  · exact iff_of_true (hq.trans (List.prefix_append _ _).isInfix) (.inl hq)
  · rw [or_iff_right hq, ← cut_isSome_iff, ← cut_isSome_iff,
      hh.cut_heading_append hh' hk hsign hq, Option.isSome_map]

end Headings

/-! ### Bodies -/

section Extraction

variable {k k' : Char} {h h' t x y : List Char} {pre mid post : List (List Char)}

/-- The body of a section reaches from its heading to the first line with the next one. -/
theorem extractSectionBody_lines (hh : IsHeading k h) (hk : k ≠ '\n') (hh' : IsHeading k' h')
    (hk' : k' ≠ '\n') (hpre : ∀ l ∈ pre, ¬ h <:+: l) (hmid : ∀ l ∈ mid, ¬ h' <:+: l)
    (hcut : cut h' t = some (x, y)) :
    extractSectionBody (unlines (pre ++ h :: (mid ++ t :: post))) h (some h') =
      .ok (stripNewlines (unlines ([] :: mid ++ [x]))) := by
  have hmid' : ∀ l ∈ [] :: mid, ¬ h' <:+: l := by
    intro l hl
    rcases List.mem_cons.mp hl with rfl | hl
    · exact fun hin => hh'.ne_nil (List.infix_nil.mp hin)
    · exact hmid l hl
  have hnext : cut h' (unlines ([] :: mid ++ t :: post)) =
      some (unlines ([] :: mid ++ [x]), unlines (y :: post)) :=
    cut_unlines hh'.ne_nil (hh'.no_newline hk') hmid' hcut
  simp only [List.cons_append] at hnext
  simp only [extractSectionBody, cut_unlines hh.ne_nil (hh.no_newline hk) hpre (cut_self h), hnext,
    List.cons_append]

end Extraction

theorem stripNewlines_append {w t w' : List Char} (hw : ∀ c ∈ w, c = '\n')
    (hw' : ∀ c ∈ w', c = '\n') (hfirst : ∀ c ∈ t.head?, c ≠ '\n') (hlast : ∀ c ∈ t.getLast?, c ≠ '\n')
    (hne : t ≠ []) : stripNewlines (w ++ (t ++ w')) = t :=
  trim_append (fun c hc => by simpa using hw c hc) (fun c hc => by simpa using hw' c hc)
    (fun c hc => by simpa using hfirst c hc) (fun c hc => by simpa using hlast c hc) hne

theorem ne_newline_of_not_isSpace {c : Char} (h : isSpace c = false) : c ≠ '\n' := by
  rintro rfl
  exact absurd h (by decide)

/-! ### Fields -/

/-- A name and a value on a line. -/
theorem fieldLine_append (name : String) (value : List Char)
    (hname : name.toList.all isNameChar = true) (hne : name.toList ≠ []) (hvalue : value ≠ []) :
    fieldLine (name.toList ++ ':' :: ' ' :: value) = some (name.toList, value) := by
  have hchars : ∀ c ∈ name.toList, isNameChar c = true := List.all_eq_true.mp hname
  have hcolon : isNameChar ':' = false := by decide
  have htake : (name.toList ++ ':' :: ' ' :: value).takeWhile isNameChar = name.toList := by
    rw [List.takeWhile_append_of_pos hchars]
    simp [hcolon]
  have hdrop : (name.toList ++ ':' :: ' ' :: value).dropWhile isNameChar = ':' :: ' ' :: value := by
    rw [List.dropWhile_append_of_pos hchars]
    simp [hcolon]
  rw [fieldLine, htake, hdrop, if_pos ⟨hne, ⟨value, rfl⟩, hvalue⟩]
  rfl

theorem fieldLine_label {label name : String} {value : List Char}
    (hlabel : label.toList = name.toList ++ [':', ' '])
    (hname : name.toList.all isNameChar = true) (hne : name.toList ≠ []) (hvalue : value ≠ []) :
    fieldLine (label.toList ++ value) = some (name.toList, value) := by
  rw [hlabel, List.append_assoc]
  exact fieldLine_append name value hname hne hvalue

/-- The fields in their order pass the check. -/
theorem validateFields_eq_none {missing : List Char → StructuralValidationError}
    {order : List (List Char) → List (List Char) → StructuralValidationError} {body : List Char}
    {specs : List SectionFieldSpec}
    (h : (fieldLines body).map Prod.fst = specs.map SectionFieldSpec.name) :
    validateFields missing order body specs = none := by
  have hfind : specs.find? (fun spec => spec.required && spec.name ∉
      specs.map SectionFieldSpec.name) = none := by
    rw [List.find?_eq_none]
    intro spec hspec
    simp [List.mem_map_of_mem (f := SectionFieldSpec.name) hspec]
  simp only [validateFields, h, hfind, ne_eq, not_true_eq_false, if_false]

/-! ### Numbers -/

theorem decimalValue_of_isDigit {c : Char} (h : c.isDigit = true) :
    decimalValue c = some (c.toNat - '0'.toNat) := by
  have hc := toNat_of_isDigit h
  have hzero : '0'.toNat = 0x30 := rfl
  rw [decimalValue, decimalZeros, List.find?_cons_of_pos (by simp; omega), hzero]
  rfl

theorem scanDigits_of_isDigit {t : List Char} (hne : t ≠ []) (h : ∀ c ∈ t, c.isDigit = true) :
    scanDigits t = some (t.map fun c => c.toNat - '0'.toNat) := by
  induction t with
  | nil => exact absurd rfl hne
  | cons c t ih =>
    have hc := decimalValue_of_isDigit (h c List.mem_cons_self)
    cases t with
    | nil => rw [scanDigits, hc]; rfl
    | cons c' t =>
      have hrest := ih (List.cons_ne_nil _ _) fun d hd => h d (List.mem_cons_of_mem _ hd)
      have hc' : c' ≠ '_' := by
        rintro rfl
        exact absurd (h '_' (by simp)) (by decide)
      simp only [scanDigits, hc, if_neg hc', hrest]
      rfl

/-- A number that is written out is read back, unless it has too many digits. -/
theorem intOfDigits_toString (n : ℕ) : intOfDigits (toString n).toList =
    if n < 10 ^ maxStrDigits then .ok n else .error .invalidInt := by
  have hdigits : ∀ c ∈ Nat.toDigits 10 n, c.isDigit = true := fun _ hc =>
    Nat.isDigit_of_mem_toDigits (by decide) (by decide) hc
  have hlen := Nat.length_toDigits_le_iff (n := n) (b := 10) (k := maxStrDigits) (by decide)
    (by decide)
  have hfold : ((Nat.toDigits 10 n).map fun c => c.toNat - '0'.toNat).foldl
      (fun n d => 10 * n + d) 0 = n := by
    rw [List.foldl_map]
    exact Nat.ofDigitChars_ten_toDigits
  rw [Nat.toString_eq_ofList_toDigits, String.toList_ofList]
  simp only [intOfDigits, scanDigits_of_isDigit Nat.toDigits_ne_nil hdigits, hfold, List.length_map]
  by_cases h : n < 10 ^ maxStrDigits
  · rw [if_pos h, if_neg (Nat.not_lt.mpr (hlen.mpr h))]
  · rw [if_neg h, if_pos (Nat.lt_of_not_le fun hle => h (hlen.mp hle))]

theorem lt_pow_maxStrDigits {n : ℕ} (h : n < 10 ^ 10) : n < 10 ^ maxStrDigits :=
  lt_of_lt_of_le h (Nat.pow_le_pow_right (by decide) (by decide))

theorem pyInt_toString (n : ℕ) :
    pyInt (toString n).toList = (intOfDigits (toString n).toList).map fun n => (n : ℤ) := by
  have hdigits : ∀ c ∈ (toString n).toList, c.isDigit = true := by
    intro c hc
    rw [Nat.toString_eq_ofList_toDigits, String.toList_ofList] at hc
    exact Nat.isDigit_of_mem_toDigits (by decide) (by decide) hc
  have hspace : ∀ c ∈ (toString n).toList, isNumberSpace c = false := by
    intro c hc
    have := toNat_of_isDigit (hdigits c hc)
    simp only [isNumberSpace, isSpace, Bool.and_eq_false_iff, Bool.or_eq_false_iff,
      decide_eq_false_iff_not, beq_eq_false_iff_ne]
    left
    omega
  have hne : (toString n).toList ≠ [] := repr_int_ne_nil n
  rw [pyInt, trim_eq_self (fun c hc => hspace c (List.mem_of_head? hc)) fun c hc =>
    hspace c (List.mem_of_getLast? hc)]
  obtain ⟨c, t, ht⟩ := List.exists_cons_of_ne_nil hne
  rw [ht] at hdigits ⊢
  have hc := hdigits c List.mem_cons_self
  have hminus : c ≠ '-' := by
    rintro rfl
    exact absurd hc (by decide)
  have hplus : c ≠ '+' := by
    rintro rfl
    exact absurd hc (by decide)
  simp only [if_neg hminus, if_neg hplus]

/-! ### The context -/

section Context

variable {compiled : CompiledJungianPrompt}

/-- The lines behind the heading of the summary. -/
def tailLines (compiled : CompiledJungianPrompt) : List (List Char) :=
  summaryLines compiled.summary ++ [[], instructionsSection.heading] ++ fixedLines

theorem renderCompiledPrompt_eq (compiled : CompiledJungianPrompt) :
    renderCompiledPrompt compiled =
      unlines ([promptPrefix, []] ++ contextSection.heading ::
        ((contextLines compiled.context ++ [[]]) ++ dreamSection.heading ::
          (dreamLines compiled.dreams ++ summarySection.heading :: tailLines compiled))) := by
  simp [renderCompiledPrompt, tailLines]

theorem quiet_promptPrefix : Quiet promptPrefix := of_literal rfl (by decide)

theorem quiet_nil : Quiet [] := by simp [Quiet]

/-- Lines between empty ones, without the line feeds around them. -/
theorem stripNewlines_lines {ls : List (List Char)} {l l' w : List Char}
    (hfirst : ls.head? = some l) (hl : l ≠ []) (hn : '\n' ∉ l) (hlast : ls.getLast? = some l')
    (hl' : l' ≠ []) (hn' : '\n' ∉ l') (hw : ∀ c ∈ w, c = '\n') :
    stripNewlines ('\n' :: (unlines ls ++ w)) = unlines ls := by
  obtain ⟨ls', rfl⟩ := List.head?_eq_some_iff.mp hfirst
  refine stripNewlines_append (w := ['\n']) (by simp) hw ?_ ?_ ?_
  · rw [head?_unlines hl]
    rintro c hc rfl
    exact hn (List.mem_of_head? hc)
  · rw [getLast?_unlines hlast hl']
    rintro c hc rfl
    exact hn' (List.mem_of_getLast? hc)
  · intro hnil
    have hhead := head?_unlines hl ls'
    rw [hnil] at hhead
    exact hl (List.head?_eq_none_iff.mp hhead.symm)

theorem contextBody (hq : ∀ l ∈ contextLines compiled.context, Quiet l) :
    extractSectionBody (renderCompiledPrompt compiled) contextSection.heading
      (some dreamSection.heading) = .ok (unlines (contextLines compiled.context)) := by
  have hpre : ∀ l ∈ [promptPrefix, []], ¬ contextSection.heading <:+: l := by
    simp only [List.forall_mem_cons]
    exact ⟨context_isHeading.not_infix_quiet quiet_promptPrefix,
      context_isHeading.not_infix_quiet quiet_nil, by simp⟩
  have hmid : ∀ l ∈ contextLines compiled.context ++ [[]], ¬ dreamSection.heading <:+: l := by
    intro l hl
    refine dream_isHeading.not_infix_quiet ?_
    rcases List.mem_append.mp hl with hl | hl
    · exact hq l hl
    · rw [List.mem_singleton.mp hl]
      exact quiet_nil
  rw [renderCompiledPrompt_eq, extractSectionBody_lines context_isHeading (by decide)
    dream_isHeading (by decide) hpre hmid (cut_self _)]
  have hlines : unlines ([] :: (contextLines compiled.context ++ [[]]) ++ [[]]) =
      '\n' :: (unlines (contextLines compiled.context) ++ ['\n', '\n']) := by
    simp [contextLines]
  have hbreak : ∀ l ∈ contextLines compiled.context, '\n' ∉ l := fun l hl hc =>
    absurd (hq l hl _ hc).1 (by decide)
  rw [hlines, stripNewlines_lines rfl (by simp) (hbreak _ List.mem_cons_self) rfl (by simp)
    (hbreak _ (by simp [contextLines])) (by simp)]

/-- The field lines of the context are its five fields. -/
theorem fieldLines_context (sessionSummary : SessionSummary) (dreams : List Dream)
    (lastActivityAt sessionCreatedAt : Option Time) {context : ContextBlock}
    (hcontext : context =
      (compileJungianPrompt sessionSummary dreams lastActivityAt sessionCreatedAt).context) :
    fieldLines (unlines (contextLines context)) =
      [("session_id".toList, uuidText context.sessionId),
        ("user_id".toList, (toString context.userId).toList),
        ("dream_count".toList, (toString context.dreamCount).toList),
        ("session_duration".toList, context.sessionDuration.toList),
        ("last_activity_at".toList, context.lastActivityAt.toList)] := by
  have hq := quiet_contextLines sessionSummary dreams lastActivityAt sessionCreatedAt
  rw [← hcontext] at hq
  have hduration : context.sessionDuration.toList ≠ [] := by
    rw [hcontext]
    exact formatDuration_ne_nil _
  have hactivity : context.lastActivityAt.toList ≠ [] := by
    rw [hcontext]
    exact formatDatetime_ne_nil _
  have h₁ : fieldLine ("session_id: ".toList ++ uuidText context.sessionId) =
      some ("session_id".toList, uuidText context.sessionId) :=
    fieldLine_label (by simp) (by decide) (by decide) (by simp [uuidText])
  have h₂ : fieldLine ("user_id: ".toList ++ (toString context.userId).toList) =
      some ("user_id".toList, (toString context.userId).toList) :=
    fieldLine_label (by simp) (by decide) (by decide) (repr_int_ne_nil _)
  have h₃ : fieldLine ("dream_count: ".toList ++ (toString context.dreamCount).toList) =
      some ("dream_count".toList, (toString context.dreamCount).toList) :=
    fieldLine_label (by simp) (by decide) (by decide) (repr_int_ne_nil context.dreamCount)
  have h₄ : fieldLine ("session_duration: ".toList ++ context.sessionDuration.toList) =
      some ("session_duration".toList, context.sessionDuration.toList) :=
    fieldLine_label (by simp) (by decide) (by decide) hduration
  have h₅ : fieldLine ("last_activity_at: ".toList ++ context.lastActivityAt.toList) =
      some ("last_activity_at".toList, context.lastActivityAt.toList) :=
    fieldLine_label (by simp) (by decide) (by decide) hactivity
  rw [fieldLines, splitlines_unlines (fun l hl => (hq l hl).oneLine) (by simp [contextLines])]
  simp only [contextLines, List.filterMap_cons, h₁, h₂, h₃, h₄, h₅, List.filterMap_nil]

/-- The number of dreams is read back. -/
theorem dreamCount_context (sessionSummary : SessionSummary) (dreams : List Dream)
    (lastActivityAt sessionCreatedAt : Option Time) {context : ContextBlock}
    (hcontext : context =
      (compileJungianPrompt sessionSummary dreams lastActivityAt sessionCreatedAt).context) :
    pyInt ((getField (fieldLines (unlines (contextLines context))) "dream_count".toList).getD ['0']) =
      (intOfDigits (toString context.dreamCount).toList).map fun n => (n : ℤ) := by
  rw [fieldLines_context sessionSummary dreams lastActivityAt sessionCreatedAt hcontext,
    ← pyInt_toString]
  rfl

end Context

end LiberNovus.Prompts

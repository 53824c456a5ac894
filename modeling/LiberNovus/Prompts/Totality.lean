import LiberNovus.Prompts.Integers
import LiberNovus.Prompts.Layout

/-! Where `validate_prompt_structure` raises. Behind the checks of the prefix, the headings and
their order every section is found, but the numbers of the prompt are read without a check.

Proved: the validator returns exactly for the prompts of which `int` reads the `dream_count`,
and the markers of the dreams up to the first block that is not valid. -/

namespace LiberNovus.Prompts

open Text Search Results

/-- The prompt comes to the checks of its sections. -/
structure Laid (prompt : List Char) : Prop where
  starts : promptPrefix <+: prompt
  headings : ∀ spec ∈ sections, spec.heading <:+: prompt
  order : validateSectionOrder prompt = .ok none

/-- The number of dreams as the context has it, or the default. -/
def countText (context : List Char) : List Char :=
  (getField (fieldLines context) "dream_count".toList).getD ['0']

/-- The marker of a block of three lines has more digits than `int` takes. -/
def LongMarker (block : List Char) : Prop :=
  ∃ marker textLine timestampLine digits, splitlines block = [marker, textLine, timestampLine] ∧
    dreamMarker marker = some digits ∧ maxStrDigits < digits.length

/-- No block has a long marker, up to the first that is not valid. -/
def ShortMarkers : ℕ → List (List Char) → Prop
  | _, [] => True
  | i, block :: blocks => ¬ LongMarker block ∧
      (validateDreamBlock i block = .ok none → ShortMarkers (i + 1) blocks)

/-- The numbers in the sections can be read. -/
structure Legible {prompt : List Char} (bodies : Bodies prompt) : Prop where
  count : IsInteger (countText bodies.context)
  markers : pyInt (countText bodies.context) ≠ .ok 0 → ShortMarkers 1 (dreamBlocks bodies.dreams)

/-! ### The sections are found -/

section Found

variable {k k' : Char} {h h' prompt x y x' y' : List Char} {n n' : ℕ}

/-- A heading that does not come before another one comes behind it. -/
theorem IsHeading.infix_after (hh : IsHeading k h) (hh' : IsHeading k' h') (hne : k ≠ k')
    (hk : k ≠ '#') (hcut : cut h prompt = some (x, y)) (hcut' : cut h' prompt = some (x', y'))
    (hle : x.length ≤ x'.length) : h' <:+: y := by
  have hsplit := cut_eq_some hcut
  rw [cut_eq_some hcut'] at hsplit
  obtain ⟨z, rfl, hz⟩ : ∃ z, x' = x ++ z ∧ h ++ y = z ++ (h' ++ y') := by
    rcases List.append_eq_append_iff.mp hsplit with ⟨z, rfl, hz⟩ | ⟨z, rfl, hz⟩
    · have hnil : z = [] := List.length_eq_zero_iff.mp (by
        rw [List.length_append] at hle
        omega)
      subst hnil
      exact ⟨[], by simp, by simpa using hz.symm⟩
    · exact ⟨z, rfl, hz⟩
  -- the sign of the second heading stands nowhere in the first but at its start
  obtain ⟨r, rfl, hr, -⟩ := hh
  obtain ⟨r', rfl, -, -⟩ := hh'
  rcases List.append_eq_append_iff.mp hz with ⟨w, -, hw⟩ | ⟨w, hw, hrest⟩
  · exact ⟨w, y', by rw [List.append_assoc, ← hw]⟩
  · rcases z with _ | ⟨c₁, _ | ⟨c₂, z⟩⟩
    · simp only [List.nil_append, List.cons_append, List.cons.injEq, true_and] at hz
      exact absurd hz.1 hne
    · simp only [List.nil_append, List.cons_append, List.cons.injEq, true_and] at hz
      exact absurd hz.2.1 (by decide)
    · have hsign : w.head? = some '#' ∨ w = [] := by
        cases w with
        | nil => exact .inr rfl
        | cons c w => exact .inl (by rw [← (List.cons_eq_cons.mp hrest).1]; rfl)
      rcases hsign with hsign | rfl
      · obtain ⟨w, rfl⟩ := List.head?_eq_some_iff.mp hsign
        have hmem : '#' ∈ ' ' :: k :: r := by
          rw [show ' ' :: k :: r = z ++ '#' :: w from
            (List.cons_eq_cons.mp (List.cons_eq_cons.mp hw).2).2]
          simp
        simp only [List.mem_cons] at hmem
        rcases hmem with h | h | h
        · exact absurd h (by decide)
        · exact absurd h.symm hk
        · exact absurd h hr
      · exact ⟨[], y', by simpa using hrest⟩

/-- The body of a section between two headings that are in order. -/
theorem extractSectionBody_of_le (hh : IsHeading k h) (hh' : IsHeading k' h') (hne : k ≠ k')
    (hk : k ≠ '#') (hn : index h prompt = .ok n) (hn' : index h' prompt = .ok n') (hle : n ≤ n') :
    ∃ body, extractSectionBody prompt h (some h') = .ok body := by
  obtain ⟨x, y, hcut, rfl⟩ := index_eq_ok.mp hn
  obtain ⟨x', y', hcut', rfl⟩ := index_eq_ok.mp hn'
  have hin := hh.infix_after hh' hne hk hcut hcut' hle
  obtain ⟨⟨body, rest⟩, hbody⟩ := Option.isSome_iff_exists.mp (cut_isSome_iff.mpr hin)
  exact ⟨stripNewlines body, by simp only [extractSectionBody, hcut, hbody]⟩

theorem Laid.bodies (hl : Laid prompt) : Nonempty (Bodies prompt) := by
  obtain ⟨p₁, p₂, p₃, p₄, p₅, p₆, h₁, h₂, h₃, h₄, h₅, h₆, hsorted⟩ :=
    validateSectionOrder_eq_ok.mp hl.order
  simp only [List.pairwise_cons, List.forall_mem_cons] at hsorted
  obtain ⟨⟨h₁₂, -⟩, ⟨h₂₃, -⟩, ⟨h₃₄, -⟩, ⟨h₄₅, -⟩, ⟨h₅₆, -⟩, -⟩ := hsorted
  obtain ⟨c, hc⟩ := extractSectionBody_of_le context_isHeading dream_isHeading (by decide)
    (by decide) h₁ h₂ h₁₂
  obtain ⟨d, hd⟩ := extractSectionBody_of_le dream_isHeading summary_isHeading (by decide)
    (by decide) h₂ h₃ h₂₃
  obtain ⟨s, hs⟩ := extractSectionBody_of_le summary_isHeading instructions_isHeading (by decide)
    (by decide) h₃ h₄ h₃₄
  obtain ⟨i, hi⟩ := extractSectionBody_of_le instructions_isHeading framework_isHeading (by decide)
    (by decide) h₄ h₅ h₄₅
  obtain ⟨f, hf⟩ := extractSectionBody_of_le framework_isHeading outputFormat_isHeading (by decide)
    (by decide) h₅ h₆ h₅₆
  obtain ⟨x, y, hcut, -⟩ := index_eq_ok.mp h₆
  exact ⟨⟨c, d, s, i, f, y.dropWhile (· == '\n'), hc, hd, hs, hi, hf,
    by simp only [extractSectionBody, hcut]⟩⟩

/-- Headings that are there have an order. -/
theorem validateSectionOrder_isOk (hall : ∀ spec ∈ sections, spec.heading <:+: prompt) :
    ∃ e, validateSectionOrder prompt = .ok e := by
  have hindex : ∀ specs : List SectionSpec, (∀ spec ∈ specs, spec.heading <:+: prompt) →
      ∃ positions, specs.mapM (fun spec => index spec.heading prompt) = .ok positions := by
    intro specs hspecs
    induction specs with
    | nil => exact ⟨[], rfl⟩
    | cons spec specs ih =>
      obtain ⟨hspec, hspecs⟩ := List.forall_mem_cons.mp hspecs
      obtain ⟨positions, hpositions⟩ := ih hspecs
      obtain ⟨⟨x, y⟩, hcut⟩ := Option.isSome_iff_exists.mp (cut_isSome_iff.mpr hspec)
      refine ⟨x.length :: positions, ?_⟩
      rw [List.mapM_cons, hpositions, index, hcut]
      rfl
  obtain ⟨positions, hpositions⟩ := hindex sections hall
  rw [validateSectionOrder, hpositions]
  exact ⟨_, rfl⟩

end Found

/-! ### The numbers are read -/

section Numbers

variable {prompt : List Char}

/-- The digits of a marker are an integer unless there are too many. -/
theorem intOfDigits_marker {line digits : List Char} (h : dreamMarker line = some digits) :
    (∃ n, intOfDigits digits = .ok n) ↔ digits.length ≤ maxStrDigits := by
  have htext : ∀ t : List Char, t ≠ [] → (∀ c ∈ t, (decimalValue c).isSome = true) →
      DigitText t t.length := by
    intro t hne ht
    induction t with
    | nil => exact absurd rfl hne
    | cons c t ih =>
      obtain ⟨hc, ht⟩ := List.forall_mem_cons.mp ht
      by_cases hnil : t = []
      · subst hnil
        exact .one hc
      · exact .digit hc (ih hnil ht)
  unfold dreamMarker at h
  dsimp only at h
  split at h <;> cases h
  next hmarker =>
  have hdigits := htext _ hmarker.2.1 fun c hc =>
    List.mem_takeWhile_imp (p := fun c => (decimalValue c).isSome) hc
  rw [intOfDigits_isOk_iff]
  constructor
  · rintro ⟨n, hn, hle⟩
    obtain ⟨ds, hds, rfl⟩ := digitText_iff.mp hn
    obtain ⟨ds', hds', hlen⟩ := digitText_iff.mp hdigits
    rw [hds] at hds'
    cases hds'
    omega
  · exact fun hle => ⟨_, hdigits, hle⟩

theorem validateDreamBlock_isOk_iff (i : ℕ) (block : List Char) :
    (∃ e, validateDreamBlock i block = .ok e) ↔ ¬ LongMarker block := by
  unfold validateDreamBlock LongMarker
  split
  · next marker textLine timestampLine hlines =>
    cases hmarker : dreamMarker marker with
    | none =>
      refine iff_of_true ⟨_, rfl⟩ ?_
      rintro ⟨_, _, _, digits, hsame, hdigits, -⟩
      cases hlines.symm.trans hsame
      rw [hmarker] at hdigits
      cases hdigits
    | some digits =>
      have hlong : (∃ marker textLine timestampLine digits,
          splitlines block = [marker, textLine, timestampLine] ∧ dreamMarker marker = some digits ∧
            maxStrDigits < digits.length) ↔ maxStrDigits < digits.length := by
        constructor
        · rintro ⟨_, _, _, digits', hsame, hdigits, hlen⟩
          cases hlines.symm.trans hsame
          rw [hmarker] at hdigits
          cases hdigits
          exact hlen
        · exact fun hlen => ⟨_, _, _, _, hlines, hmarker, hlen⟩
      rw [hlong, Nat.not_lt, ← intOfDigits_marker hmarker]
      dsimp only
      cases intOfDigits digits with
      | error e => simp [bind, Except.bind]
      | ok n =>
        simp only [bind, Except.bind]
        refine iff_of_true ?_ ⟨n, rfl⟩
        split_ifs <;> exact ⟨_, rfl⟩
  · next hlines =>
    refine iff_of_true ⟨_, rfl⟩ ?_
    rintro ⟨_, _, _, _, hsame, -⟩
    exact hlines _ _ _ hsame

/-- The loop over the blocks: a block that is not valid ends it, and one with a long marker
raises. -/
theorem validateDreamBlocks_isOk_iff (i : ℕ) (blocks : List (List Char)) :
    (∃ e, validateDreamBlocks i blocks = .ok e) ↔ ShortMarkers i blocks := by
  induction blocks generalizing i with
  | nil => exact iff_of_true ⟨_, rfl⟩ trivial
  | cons block blocks ih =>
    rw [ShortMarkers, ← validateDreamBlock_isOk_iff i block, validateDreamBlocks]
    cases hblock : validateDreamBlock i block with
    | error e => simp [bind, Except.bind]
    | ok e =>
      cases e with
      | none => simpa [bind, Except.bind] using ih (i + 1)
      | some e => simp [bind, Except.bind]

theorem validateDreamSection_isOk_iff (body : List Char) (n : ℤ) :
    (∃ e, validateDreamSection body n = .ok e) ↔ (n ≠ 0 → ShortMarkers 1 (dreamBlocks body)) := by
  unfold validateDreamSection
  by_cases hn : n = 0
  · rw [if_pos hn]
    exact iff_of_true ⟨_, rfl⟩ fun hne => absurd hn hne
  · rw [if_neg hn, validateDreamBlocks_isOk_iff]
    exact ⟨fun h _ => h, fun h => h hn⟩

theorem validateSections_isOk_iff (bodies : Bodies prompt) :
    (∃ errors, validateSections prompt = .ok errors) ↔ Legible bodies := by
  have hsections : (∃ errors, validateSections prompt = .ok errors) ↔
      ∃ n, pyInt (countText bodies.context) = .ok n ∧
        ∃ e, validateDreamSection bodies.dreams n = .ok e := by
    simp only [validateSections, bodies.ofContext, bodies.ofDreams, bodies.ofSummary,
      bodies.ofInstructions, bodies.ofFramework, bodies.ofOutputFormat, bind, Except.bind,
      countText]
    cases pyInt ((getField (fieldLines bodies.context) "dream_count".toList).getD ['0']) with
    | error e => simp
    | ok n => cases hlog : validateDreamSection bodies.dreams n <;> simp [hlog]
  rw [hsections]
  simp only [validateDreamSection_isOk_iff]
  constructor
  · rintro ⟨n, hn, hmarkers⟩
    refine ⟨pyInt_isOk_iff.mp ⟨n, hn⟩, fun hne => hmarkers fun hzero => hne ?_⟩
    rw [hn, hzero]
  · rintro ⟨hcount, hmarkers⟩
    obtain ⟨n, hn⟩ := pyInt_isOk_iff.mpr hcount
    refine ⟨n, hn, fun hne => hmarkers fun hzero => hne ?_⟩
    exact Except.ok.inj (hn.symm.trans hzero)

/-- The validator returns a list of errors exactly when the numbers of a prompt, whose sections
are in order, can be read. -/
theorem validatePromptStructure_returns_iff (prompt : List Char) :
    (∃ errors, validatePromptStructure prompt = .ok errors) ↔
      (Laid prompt → ∀ bodies : Bodies prompt, Legible bodies) := by
  unfold validatePromptStructure
  split
  · next hstart => exact iff_of_true ⟨_, rfl⟩ fun hl => absurd hl.starts hstart
  · next hstart =>
    rw [not_not] at hstart
    split
    · next spec hspec =>
      have hmem := List.mem_of_find?_eq_some hspec
      have hno := List.find?_some hspec
      simp only [decide_eq_true_eq] at hno
      exact iff_of_true ⟨_, rfl⟩ fun hl => absurd (hl.headings spec hmem) hno
    · next hall =>
      rw [List.find?_eq_none] at hall
      simp only [decide_eq_true_eq, not_not] at hall
      obtain ⟨e, he⟩ := validateSectionOrder_isOk hall
      rw [he]
      cases e with
      | some e =>
        refine iff_of_true ⟨_, rfl⟩ fun hl => ?_
        have horder := hl.order
        rw [he] at horder
        cases horder
      | none =>
        have hl : Laid prompt := ⟨hstart, hall, he⟩
        obtain ⟨bodies⟩ := hl.bodies
        constructor
        · exact fun hreturns _ bodies => (validateSections_isOk_iff bodies).mp hreturns
        · exact fun hlegible => (validateSections_isOk_iff bodies).mpr (hlegible hl bodies)

end Numbers

/-- A prompt with all its sections, and a number of dreams that is not one. -/
def illegible : List Char :=
  promptPrefix ++ contextSection.heading ++ "\ndream_count: x\n".toList ++ dreamSection.heading ++
    summarySection.heading ++ instructionsSection.heading ++ frameworkSection.heading ++
    outputFormatSection.heading

set_option maxRecDepth 8000 in
theorem validator_raises :
    ¬ ∀ prompt, ∃ errors, validatePromptStructure prompt = .ok errors := by
  intro h
  obtain ⟨errors, herrors⟩ := h illegible
  have hraise : validatePromptStructure illegible = .error .invalidInt := by decide
  rw [hraise] at herrors
  cases herrors

end LiberNovus.Prompts
